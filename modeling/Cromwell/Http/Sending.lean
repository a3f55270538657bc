/-
Module: Cromwell.Http.Sending
Layer: Proofs
Purpose: The sending of the answers over whole runs. Beside the connection a run keeps the response that was selected
  last and every call of `tcp_write` since then, with what it asked for and how it ended. What was accepted is always
  the beginning of the response, byte by byte, up to where the connection stands.
Imports: Cromwell.Http.Bounds
Trusted boundary: human-reviewed history (sendCalls, Answering.step) and statement (InOrder)
Main exports: Write, sendDataCalls, Answering, accepted, InOrder, responses_in_order
-/
import Cromwell.Http.Bounds

namespace Cromwell.Http

open ByteMemory

/-! ### The calls of tcp_write -/

/-- A call `tcp_write(pcb, file, len, 0)`, with `tcp_sndbuf(pcb)` at the time and the result. -/
structure Write where
  file : Option FilePointer
  len : Nat
  sndbuf : Nat
  result : ErrT
deriving DecidableEq, Repr

/-- The bytes of a call, each as its place in the file. -/
def Write.bytes (w : Write) : List FilePointer :=
  match w.file with
  | some f => (List.range w.len).map fun i => ⟨f.fno, f.offset + i⟩
  | none => []

/-- The bytes that `tcp_write` has accepted, in order. -/
def accepted (writes : List Write) : List FilePointer :=
  (writes.filter fun w => w.result = .ok).flatMap Write.bytes

theorem accepted_append (writes writes' : List Write) :
    accepted (writes ++ writes') = accepted writes ++ accepted writes' := by
  simp only [accepted, List.filter_append, List.flatMap_append]

/-- The length that `send_data` begins with. -/
def firstLength (ans : Answers) (hs : HttpState) : Nat :=
  if (ans.sndbuf : Int) < hs.left then ans.sndbuf % 2 ^ 16 else (hs.left % 2 ^ 16).toNat

/-- The calls of the `do .. while`, turn by turn as in `sendLoop`. -/
def sendCalls (ans : Answers) (file : Option FilePointer) : Nat → Nat → Nat → List Write
  | 0, _, _ => []
  | fuel + 1, len, tries =>
      ⟨file, len, ans.sndbuf, ans.tcpWrite tries⟩ ::
        match ans.tcpWrite tries with
        | .mem => if 1 < len / 2 then sendCalls ans file fuel (len / 2) (tries + 1) else []
        | _ => []

/-- The calls of `send_data`. -/
def sendDataCalls (ans : Answers) (hs : HttpState) : List Write := sendCalls ans hs.file 17 (firstLength ans hs) 0

/-- The range of the last call of the loop, if it was accepted. -/
def outcomeBytes (file : Option FilePointer) : ErrT × Nat → List FilePointer
  | (.ok, len) => Write.bytes ⟨file, len, 0, .ok⟩
  | _ => []

/-- The result of the loop is its last call: what that call was asked to send is all that was accepted. -/
theorem accepted_sendCalls (ans : Answers) (file : Option FilePointer) (fuel : Nat) : ∀ len tries,
    accepted (sendCalls ans file fuel len tries) = outcomeBytes file (sendLoop ans.tcpWrite fuel len tries) := by
  induction fuel with
  | zero => exact fun _ _ => rfl
  | succ fuel ih =>
      intro len tries
      simp only [sendCalls, sendLoop]
      cases hresult : ans.tcpWrite tries with
      | ok => exact List.append_nil _
      | other => rfl
      | mem =>
          by_cases hmore : 1 < len / 2
          · simp only [if_pos hmore, ← ih]
            rfl
          · simp only [if_neg hmore]
            rfl

/-- No call asks for more than the first one. -/
theorem sendCalls_bounded (ans : Answers) (file : Option FilePointer) (fuel : Nat) : ∀ len tries,
    ∀ w ∈ sendCalls ans file fuel len tries, w.len ≤ len ∧ w.sndbuf = ans.sndbuf := by
  induction fuel with
  | zero => exact fun _ _ w hw => absurd hw List.not_mem_nil
  | succ fuel ih =>
      intro len tries w hw
      rcases List.mem_cons.mp hw with rfl | hw
      · exact ⟨Nat.le_refl _, rfl⟩
      · split at hw
        · split at hw
          · obtain ⟨hle, hsndbuf⟩ := ih _ _ w hw
            exact ⟨hle.trans (Nat.div_le_self len 2), hsndbuf⟩
          · exact absurd hw List.not_mem_nil
        · exact absurd hw List.not_mem_nil

theorem sendLoop_le (tcpWrite : Nat → ErrT) (fuel : Nat) : ∀ len tries, (sendLoop tcpWrite fuel len tries).2 ≤ len := by
  induction fuel with
  | zero => exact fun len _ => Nat.le_refl len
  | succ fuel ih =>
      intro len tries
      rw [sendLoop]
      cases tcpWrite tries with
      | ok | other => exact Nat.le_refl len
      | mem =>
          dsimp only
          split
          · exact (ih _ _).trans (Nat.div_le_self len 2)
          · exact Nat.div_le_self len 2

theorem firstLength_le_sndbuf (ans : Answers) {hs : HttpState} (nonneg : 0 ≤ hs.left) :
    firstLength ans hs ≤ ans.sndbuf := by
  unfold firstLength
  split
  · exact Nat.mod_le ans.sndbuf _
  · omega

theorem firstLength_le_left (ans : Answers) {hs : HttpState} (nonneg : 0 ≤ hs.left) :
    (firstLength ans hs : Int) ≤ hs.left := by
  unfold firstLength
  split
  · have hmod := Nat.mod_le ans.sndbuf (2 ^ 16)
    omega
  · omega

/-! ### Where a response stands -/

/-- The response is file `fno`, of `n` bytes: the calls so far have sent its beginning, and the rest is left. -/
structure Sent (fno n : Nat) (hs : HttpState) (writes : List Write) : Prop where
  nonneg : 0 ≤ hs.left
  le : hs.left ≤ n
  file : hs.file = some ⟨fno, n - hs.left.toNat⟩
  accepted : accepted writes = (List.range (n - hs.left.toNat)).map fun i => ⟨fno, i⟩
  window : ∀ w ∈ writes, w.len ≤ w.sndbuf

/-- What is sent does not depend on anything else. -/
theorem Sent.congr {fno n : Nat} {hs hs' : HttpState} {writes : List Write} (h : Sent fno n hs writes)
    (file : hs'.file = hs.file) (left : hs'.left = hs.left) : Sent fno n hs' writes where
  nonneg := left ▸ h.nonneg
  le := left ▸ h.le
  file := file.trans (left ▸ h.file)
  accepted := left ▸ h.accepted
  window := h.window

theorem sent_select (hs : HttpState) (files : Nat → Nat) (fno : Nat) : Sent fno (files fno) (hs.select files fno) [] where
  nonneg := Int.natCast_nonneg _
  le := Int.le_refl _
  file := by simp [HttpState.select]
  accepted := by simp [HttpState.select, accepted]
  window := fun w hw => absurd hw List.not_mem_nil

/-- `send_data` goes on where it has stopped. -/
theorem Sent.sendData {fno n : Nat} {hs : HttpState} {writes : List Write} (h : Sent fno n hs writes) (ans : Answers) :
    Sent fno n (Http.sendData ans hs) (writes ++ sendDataCalls ans hs) := by
  have hwindow : ∀ w ∈ writes ++ sendDataCalls ans hs, w.len ≤ w.sndbuf := by
    intro w hw
    rcases List.mem_append.mp hw with hw | hw
    · exact h.window w hw
    · obtain ⟨hlen, hsndbuf⟩ := sendCalls_bounded ans hs.file 17 _ 0 w hw
      exact hsndbuf ▸ hlen.trans (firstLength_le_sndbuf ans h.nonneg)
  have hcalls : Http.accepted (sendDataCalls ans hs) =
      outcomeBytes hs.file (sendLoop ans.tcpWrite 17 (firstLength ans hs) 0) := accepted_sendCalls ..
  have hle := sendLoop_le ans.tcpWrite 17 (firstLength ans hs) 0
  have hsend : Http.sendData ans hs =
      match sendLoop ans.tcpWrite 17 (firstLength ans hs) 0 with
      | (.ok, len) =>
          { hs with
            file := hs.file.map fun f => { f with offset := f.offset + len }
            left := hs.left - len }
      | _ => hs := rfl
  have hleft := firstLength_le_left ans h.nonneg
  rw [hsend]
  generalize firstLength ans hs = first at hle hleft hcalls
  cases hloop : sendLoop ans.tcpWrite 17 first 0 with
  | mk result len =>
      rw [hloop] at hle hcalls
      cases result with
      | mem | other =>
          have hnone : Http.accepted (sendDataCalls ans hs) = [] := hcalls
          refine { h with window := hwindow, accepted := ?_ }
          rw [accepted_append, hnone, List.append_nil]
          exact h.accepted
      | ok =>
          have hlen : (len : Int) ≤ hs.left := le_trans (Int.ofNat_le.mpr hle) hleft
          have hnonneg := h.nonneg
          have hbound := h.le
          have hoffset : n - (hs.left - len).toNat = (n - hs.left.toNat) + len := by omega
          refine ⟨?_, ?_, ?_, ?_, hwindow⟩
          · exact Int.sub_nonneg_of_le hlen
          · exact le_trans (Int.sub_le_self _ (Int.natCast_nonneg _)) h.le
          · simp only [h.file, Option.map_some, hoffset]
          · simp only [hoffset]
            rw [accepted_append, hcalls, outcomeBytes, h.accepted, List.range_add, List.map_append, List.map_map]
            simp only [Write.bytes, h.file]
            rfl

/-! ### Runs with the calls -/

/-- A connection with the response that was selected last and the calls of `tcp_write` since then. -/
structure Answering where
  conn : Conn
  response : Option Nat
  writes : List Write

/-- The number of the file that `hs->file` points into. -/
def HttpState.fileNumber (hs : HttpState) : Option Nat := hs.file.map FilePointer.fno

/-- The end of the header is answered when there is no body to come. -/
def Answered (hs : HttpState) : Prop := hs.lineBuf 0 = 0 ∧ ¬ (hs.ispost ∧ hs.postlen ≠ 0)

instance (hs : HttpState) : Decidable (Answered hs) := inferInstanceAs (Decidable (_ ∧ _))

/-- A received byte. The end of a request line selects a response, and so does the last byte of a body, which is
    answered at once; the end of the header is answered when there is no body to come. -/
def Answering.recv (files : Nat → Nat) (expected : Nat) (s : Answering) (r : Received) : Answering :=
  match s.conn.phase with
  | .opened =>
      let conn := recvByte files expected s.conn r
      if s.conn.hs.postdata = 0 then
        if r.byte = 0x0a then
          let hs := s.conn.hs.storeLine 0
          if hs.gotfirst then
            if Answered hs then
              { s with conn := conn, writes := s.writes ++ sendDataCalls r.answers hs }
            else { s with conn := conn }
          else { conn := conn, response := conn.hs.fileNumber, writes := [] }
        else { s with conn := conn }
      else if (s.conn.hs.postpos + 1 : Int) = s.conn.hs.postlen then
        let hs := (handlePost files expected r.answers { s.conn.hs with postpos := s.conn.hs.postpos + 1 }
          (s.conn.mem.store (u32 (s.conn.hs.postdata + s.conn.hs.postpos)) r.byte)).2.1
        { conn := conn, response := hs.fileNumber, writes := sendDataCalls r.answers hs }
      else { s with conn := conn }
  | _ => s

/-- The calls of the two callbacks that send. -/
def Event.calls (c : Conn) : Event → List Write
  | .sent ans => if 0 < c.hs.left then sendDataCalls ans c.hs else []
  | .poll ans => if c.hs.retries + 1 = 4 then [] else sendDataCalls ans c.hs
  | _ => []

/-- One byte, or another event; a connection that is not open any more has none. -/
def Answering.step (files : Nat → Nat) (expected : Nat) (s : Answering) : Received ⊕ Event → Answering
  | .inl r => s.recv files expected r
  | .inr (.recv _) => s
  | .inr e =>
      match s.conn.phase with
      | .opened => { s with conn := e.apply files expected s.conn, writes := s.writes ++ e.calls s.conn }
      | _ => s

/-- An accepted connection: no response yet. -/
def Answering.accept (mem : Mem) (lineBuf : Int → UInt8) : Answering := ⟨httpAccept mem lineBuf, none, []⟩

/-- The response is sent in order, and `http_sent` closes the connection only when nothing is left. -/
structure InOrder (files : Nat → Nat) (fno : Nat) (s : Answering) : Prop where
  nonneg : 0 ≤ s.conn.hs.left
  le : s.conn.hs.left ≤ files fno
  file : s.conn.hs.file = some ⟨fno, files fno - s.conn.hs.left.toNat⟩
  accepted : accepted s.writes = (List.range (files fno - s.conn.hs.left.toNat)).map fun i => ⟨fno, i⟩
  window : ∀ w ∈ s.writes, w.len ≤ w.sndbuf
  closes : ∀ ans, (httpSent ans s.conn).phase ≠ .opened → s.conn.hs.left = 0

/-- The history does not touch the connection. -/
theorem Answering.step_conn (files : Nat → Nat) (expected : Nat) (s : Answering) (t : Traced) (same : s.conn = t.conn)
    (e : Received ⊕ Event) : (s.step files expected e).conn = (t.step files expected e).conn := by
  obtain ⟨conn, response, writes⟩ := s
  subst same
  cases e with
  | inl r =>
      simp only [Answering.step, Answering.recv, Traced.step, Traced.recv_conn]
      cases hphase : t.conn.phase with
      | opened =>
          dsimp only
          split_ifs <;> rfl
      | closed | gone | reflash _ _ _ => simp only [recvByte, hphase]
  | inr e =>
      cases e with
      | recv chain => rfl
      | remoteClose | sent _ | poll _ | error | elsewhere _ =>
          cases hphase : t.conn.phase with
          | opened | closed | gone | reflash _ _ _ => simp only [Answering.step, Traced.step, hphase]

theorem Answering.run_conn (files : Nat → Nat) (expected : Nat) (parts : List (Received ⊕ Event)) :
    ∀ (s : Answering) (t : Traced), s.conn = t.conn →
      (parts.foldl (Answering.step files expected) s).conn = (parts.foldl (Traced.step files expected) t).conn := by
  induction parts with
  | nil => exact fun _ _ same => same
  | cons e rest ih => exact fun s t same => ih _ _ (s.step_conn files expected t same e)

/-! ### One step -/

/-- The response stands in the file that was selected last. -/
structure Standing (files : Nat → Nat) (s : Answering) : Prop where
  response : s.response = s.conn.hs.fileNumber
  sent : ∀ fno, s.response = some fno → Sent fno (files fno) s.conn.hs s.writes

theorem Standing.congr {files : Nat → Nat} {s s' : Answering} (h : Standing files s)
    (response : s'.response = s.response) (writes : s'.writes = s.writes)
    (file : s'.conn.hs.file = s.conn.hs.file) (left : s'.conn.hs.left = s.conn.hs.left) : Standing files s' where
  response := by rw [response, h.response, HttpState.fileNumber, HttpState.fileNumber, file]
  sent := by
    intro fno hfno
    rw [writes]
    exact (h.sent fno (response ▸ hfno)).congr file left

theorem sendData_fileNumber (ans : Answers) (hs : HttpState) : (sendData ans hs).fileNumber = hs.fileNumber := by
  unfold sendData HttpState.fileNumber
  dsimp only
  split
  · rw [Option.map_map]
    rfl
  · rfl

/-- Some more of the response is sent. -/
theorem Standing.sendData {files : Nat → Nat} {s s' : Answering} (h : Standing files s) (ans : Answers)
    (response : s'.response = s.response) (writes : s'.writes = s.writes ++ sendDataCalls ans s.conn.hs)
    (file : s'.conn.hs.file = (Http.sendData ans s.conn.hs).file)
    (left : s'.conn.hs.left = (Http.sendData ans s.conn.hs).left) : Standing files s' where
  response := by
    rw [response, h.response, ← sendData_fileNumber ans, HttpState.fileNumber, HttpState.fileNumber, file]
  sent := by
    intro fno hfno
    rw [writes]
    exact ((h.sent fno (response ▸ hfno)).sendData ans).congr file left

/-- A response has just been selected. -/
theorem standing_select {files : Nat → Nat} {s : Answering} {fno : Nat} {hs : HttpState}
    (response : s.response = some fno) (writes : s.writes = []) (file : s.conn.hs.file = (hs.select files fno).file)
    (left : s.conn.hs.left = (hs.select files fno).left) : Standing files s where
  response := by
    rw [response, HttpState.fileNumber, file]
    rfl
  sent := by
    intro fno' hfno
    cases response.symm.trans hfno
    rw [writes]
    exact (sent_select hs files fno).congr file left

theorem contentLength_file (hs : HttpState) :
    (contentLength hs).file = hs.file ∧ (contentLength hs).left = hs.left := by
  unfold contentLength
  split
  · exact ⟨rfl, rfl⟩
  · exact ⟨rfl, rfl⟩

/-- The request line selects a response. -/
theorem requestLine_selects {files : Nat → Nat} {hs hs' : HttpState} (h : requestLine files hs = some hs') :
    ∃ fno, hs'.file = (hs.select files fno).file ∧ hs'.left = (hs.select files fno).left := by
  unfold requestLine at h
  split at h
  · cases h
    exact ⟨_, rfl, rfl⟩
  · split at h
    · cases h
      exact ⟨5, rfl, rfl⟩
    · cases h

theorem judge_selects (files : Nat → Nat) (expected start theEnd : Nat) (hs : HttpState) :
    ∃ fno, (judge files expected start theEnd (hs.select files 5)).2.file = (hs.select files fno).file ∧
      (judge files expected start theEnd (hs.select files 5)).2.left = (hs.select files fno).left := by
  unfold judge
  split
  · exact ⟨5, rfl, rfl⟩
  · dsimp only
    split
    · exact ⟨3, rfl, rfl⟩
    · exact ⟨2, rfl, rfl⟩

/-- So does the end of a body. -/
theorem handlePost_selects (files : Nat → Nat) (expected : Nat) (ans : Answers) (hs : HttpState) (m : Mem) :
    ∃ fno, (handlePost files expected ans hs m).2.1.file = (hs.select files fno).file ∧
      (handlePost files expected ans hs m).2.1.left = (hs.select files fno).left := by
  unfold handlePost
  dsimp only
  split
  · exact ⟨5, rfl, rfl⟩
  · split
    · split
      · exact ⟨5, rfl, rfl⟩
      · exact judge_selects files expected _ _ hs
    · split
      · exact ⟨5, rfl, rfl⟩
      · exact judge_selects files expected _ _ hs

theorem handleLine_answered {files : Nat → Nat} {ans : Answers} {hs hs' : HttpState} (first : hs.gotfirst = true)
    (answered : Answered hs) (h : handleLine files ans hs = some hs') :
    hs'.file = (sendData ans hs).file ∧ hs'.left = (sendData ans hs).left := by
  rw [handleLine, if_pos first, if_pos answered.1, headerEnd, if_neg answered.2] at h
  cases h
  exact contentLength_file _

theorem handleLine_goes_on {files : Nat → Nat} {ans : Answers} {hs hs' : HttpState} (first : hs.gotfirst = true)
    (answered : ¬ Answered hs) (h : handleLine files ans hs = some hs') :
    hs'.file = hs.file ∧ hs'.left = hs.left := by
  rw [handleLine, if_pos first] at h
  cases h
  by_cases hempty : hs.lineBuf 0 = 0
  · have hbody : hs.ispost ∧ hs.postlen ≠ 0 := not_not.mp fun hno => answered ⟨hempty, hno⟩
    rw [if_pos hempty, headerEnd, if_pos hbody]
    exact contentLength_file _
  · rw [if_neg hempty]
    exact contentLength_file _

theorem handleLine_selects {files : Nat → Nat} {ans : Answers} {hs hs' : HttpState} (first : ¬ hs.gotfirst = true)
    (h : handleLine files ans hs = some hs') :
    ∃ fno, hs'.file = (hs.select files fno).file ∧ hs'.left = (hs.select files fno).left := by
  rw [handleLine, if_neg first] at h
  exact requestLine_selects h

/-- A line feed in the header. -/
theorem standing_feed {files : Nat → Nat} {expected : Nat} {s : Answering} {r : Received} (h : Standing files s)
    (opened : s.conn.phase = .opened) (hpd : s.conn.hs.postdata = 0) (feed : r.byte = 0x0a)
    (stays : (recvByte files expected s.conn r).phase = .opened) : Standing files (s.recv files expected r) := by
  have hbyte : recvByte files expected s.conn r = headerByte files r s.conn := by
    simp only [recvByte, opened, if_pos hpd]
  have hfeed := headerByte_line files s.conn feed
  cases hline : handleLine files r.answers (s.conn.hs.storeLine 0) with
  | none =>
      rw [hbyte, hfeed, hline] at stays
      exact absurd stays (closeConn_phase _)
  | some hs =>
      rw [hline] at hfeed
      have hconn : recvByte files expected s.conn r = { s.conn with hs := { hs with lineBufpos := 0 } } :=
        hbyte.trans hfeed
      simp only [Answering.recv, opened, if_pos hpd, if_pos feed, hconn]
      by_cases hfirst : (s.conn.hs.storeLine 0).gotfirst = true
      · rw [if_pos hfirst]
        by_cases hanswered : Answered (s.conn.hs.storeLine 0)
        · obtain ⟨hfile, hleft⟩ := handleLine_answered hfirst hanswered hline
          have hstored : Standing files { s with conn := { s.conn with hs := s.conn.hs.storeLine 0 } } :=
            h.congr rfl rfl rfl rfl
          rw [if_pos hanswered]
          exact hstored.sendData r.answers rfl rfl hfile hleft
        · obtain ⟨hfile, hleft⟩ := handleLine_goes_on hfirst hanswered hline
          rw [if_neg hanswered]
          exact h.congr rfl rfl hfile hleft
      · obtain ⟨fno, hfile, hleft⟩ := handleLine_selects hfirst hline
        rw [if_neg hfirst]
        refine standing_select ?_ rfl hfile hleft
        exact congrArg (Option.map FilePointer.fno) hfile

/-- A byte of the body. -/
theorem standing_body {files : Nat → Nat} {expected : Nat} {s : Answering} {r : Received} (h : Standing files s)
    (opened : s.conn.phase = .opened) (hpd : s.conn.hs.postdata ≠ 0) : Standing files (s.recv files expected r) := by
  simp only [Answering.recv, recvByte, opened, if_neg hpd, bodyByte]
  by_cases hlast : (s.conn.hs.postpos + 1 : Int) = s.conn.hs.postlen
  · have hlast' : ((s.conn.hs.postpos + 1 : Nat) : Int) = s.conn.hs.postlen := hlast
    obtain ⟨fno, hfile, hleft⟩ := handlePost_selects files expected r.answers
      { s.conn.hs with postpos := s.conn.hs.postpos + 1 }
      (s.conn.mem.store (u32 (s.conn.hs.postdata + s.conn.hs.postpos)) r.byte)
    simp only [if_pos hlast, if_pos hlast']
    generalize handlePost files expected r.answers { s.conn.hs with postpos := s.conn.hs.postpos + 1 }
      (s.conn.mem.store (u32 (s.conn.hs.postdata + s.conn.hs.postpos)) r.byte) = posted at hfile hleft ⊢
    have hselected : Standing files ⟨{ s.conn with hs := posted.2.1 }, posted.2.1.fileNumber, []⟩ :=
      standing_select (congrArg (Option.map FilePointer.fno) hfile) rfl hfile hleft
    exact hselected.sendData r.answers rfl rfl rfl rfl
  · have hlast' : ¬ ((s.conn.hs.postpos + 1 : Nat) : Int) = s.conn.hs.postlen := hlast
    simp only [if_neg hlast, if_neg hlast']
    exact h.congr rfl rfl rfl rfl

/-- A byte of the header that does not end a line. -/
theorem headerByte_file (files : Nat → Nat) {r : Received} (c : Conn) (feed : r.byte ≠ 0x0a) :
    (headerByte files r c).hs.file = c.hs.file ∧ (headerByte files r c).hs.left = c.hs.left := by
  unfold headerByte
  rw [if_neg feed]
  split
  · exact ⟨rfl, rfl⟩
  · split
    · exact ⟨rfl, rfl⟩
    · exact ⟨rfl, rfl⟩

theorem standing_recv {files : Nat → Nat} {expected : Nat} {s : Answering} {r : Received} (h : Standing files s)
    (opened : s.conn.phase = .opened) (stays : (s.recv files expected r).conn.phase = .opened) :
    Standing files (s.recv files expected r) := by
  by_cases hpd : s.conn.hs.postdata = 0
  · by_cases hfeed : r.byte = 0x0a
    · refine standing_feed h opened hpd hfeed ?_
      simp only [Answering.recv, opened, if_pos hpd, if_pos hfeed] at stays
      split at stays
      · split at stays
        · exact stays
        · exact stays
      · exact stays
    · obtain ⟨hfile, hleft⟩ := headerByte_file files s.conn hfeed
      simp only [Answering.recv, recvByte, opened, if_pos hpd, if_neg hfeed]
      exact h.congr rfl rfl hfile hleft
  · exact standing_body h opened hpd

/-- The other events. -/
theorem standing_event {files : Nat → Nat} {expected : Nat} {s : Answering} (e : Event) (h : Standing files s)
    (opened : s.conn.phase = .opened) (stays : (s.step files expected (.inr e)).conn.phase = .opened) :
    Standing files (s.step files expected (.inr e)) := by
  cases e with
  | recv chain => exact h
  | remoteClose =>
      simp only [Answering.step, opened] at stays
      exact absurd stays (closeConn_phase _)
  | error =>
      simp only [Answering.step, opened] at stays
      exact absurd stays Phase.noConfusion
  | elsewhere mem =>
      simp only [Answering.step, opened, Event.calls]
      exact h.congr rfl (List.append_nil _) rfl rfl
  | sent ans =>
      have hretries : Standing files { s with conn := { s.conn with hs := { s.conn.hs with retries := 0 } } } :=
        h.congr rfl rfl rfl rfl
      simp only [Answering.step, opened, Event.calls, Event.apply, httpSent] at stays ⊢
      by_cases hleft : 0 < s.conn.hs.left
      · simp only [if_pos hleft] at stays ⊢
        exact hretries.sendData ans rfl rfl rfl rfl
      · simp only [if_neg hleft] at stays
        exact absurd stays (closeConn_phase _)
  | poll ans =>
      have hretries : Standing files
          { s with conn := { s.conn with hs := { s.conn.hs with retries := s.conn.hs.retries + 1 } } } :=
        h.congr rfl rfl rfl rfl
      simp only [Answering.step, opened, Event.calls, Event.apply, httpPoll] at stays ⊢
      by_cases hlast : s.conn.hs.retries + 1 = 4
      · simp only [if_pos hlast] at stays
        exact absurd stays Phase.noConfusion
      · simp only [if_neg hlast]
        exact hretries.sendData ans rfl rfl rfl rfl

/-! ### Whole runs -/

theorem step_closed {files : Nat → Nat} {expected : Nat} {s : Answering} (closed : s.conn.phase ≠ .opened)
    (e : Received ⊕ Event) : s.step files expected e = s := by
  cases e with
  | inl r =>
      cases hphase : s.conn.phase with
      | opened => exact absurd hphase closed
      | closed | gone | reflash _ _ _ => simp only [Answering.step, Answering.recv, hphase]
  | inr e =>
      cases e with
      | recv chain => rfl
      | remoteClose | sent _ | poll _ | error | elsewhere _ =>
          cases hphase : s.conn.phase with
          | opened => exact absurd hphase closed
          | closed | gone | reflash _ _ _ => simp only [Answering.step, hphase]

/-- While the connection is open the response stands in the selected file. -/
theorem standing_run {files : Nat → Nat} {expected : Nat} (parts : List (Received ⊕ Event)) : ∀ s : Answering,
    (s.conn.phase = .opened → Standing files s) →
    (parts.foldl (Answering.step files expected) s).conn.phase = .opened →
    Standing files (parts.foldl (Answering.step files expected) s) := by
  induction parts with
  | nil => exact fun s h => h
  | cons e rest ih =>
      intro s h
      apply ih
      intro stays
      by_cases hopen : s.conn.phase = .opened
      · cases e with
        | inl r => exact standing_recv (h hopen) hopen stays
        | inr e => exact standing_event e (h hopen) hopen stays
      · rw [step_closed hopen] at stays
        exact absurd stays hopen

/-- A connection that has no response yet. -/
theorem standing_accept (files : Nat → Nat) (mem : Mem) (lineBuf : Int → UInt8) :
    Standing files (Answering.accept mem lineBuf) where
  response := rfl
  sent := fun fno hfno => by cases hfno

theorem httpSent_closes (ans : Answers) {c : Conn} (opened : c.phase = .opened)
    (closes : (httpSent ans c).phase ≠ .opened) : ¬ 0 < c.hs.left := by
  intro hleft
  apply closes
  rw [httpSent]
  simp only [if_pos hleft]
  exact opened

/-- In every run, as long as the connection is open: the response that was selected last is sent in order, from its
    beginning up to where the connection stands. -/
theorem responses_in_order (files : Nat → Nat) (expected : Nat) (mem : Mem) (lineBuf : Int → UInt8)
    (parts : List (Received ⊕ Event)) (fno : Nat)
    (opened : (parts.foldl (Answering.step files expected) (.accept mem lineBuf)).conn.phase = .opened)
    (response : (parts.foldl (Answering.step files expected) (.accept mem lineBuf)).response = some fno) :
    InOrder files fno (parts.foldl (Answering.step files expected) (.accept mem lineBuf)) := by
  have hstanding := standing_run parts _ (fun _ => standing_accept files mem lineBuf) opened
  have hsent := hstanding.sent fno response
  refine ⟨hsent.nonneg, hsent.le, hsent.file, hsent.accepted, hsent.window, fun ans hcloses => ?_⟩
  exact le_antisymm (not_lt.mp (httpSent_closes ans opened hcloses)) hsent.nonneg

/-- A window of five bytes; the first try finds no memory. -/
def shortOfMemory : Answers :=
  { freshAnswers 0 0 with sndbuf := 5, tcpWrite := fun tries => if tries = 0 then .mem else .ok }

/-- The request for a page, one acknowledgement, and a poll. -/
def getPage : List (Received ⊕ Event) :=
  (arriving shortOfMemory [0x47, 0x45, 0x54, 0x20, 0x2f, 0x31, 0x0a, 0x0a]).map Sum.inl ++
    [Sum.inr (.sent shortOfMemory), Sum.inr (.poll shortOfMemory)]

/-- Three times two bytes of a page of nine. -/
theorem responses_in_order_page :
    InOrder (fun _ => 9) 1 (getPage.foldl (Answering.step (fun _ => 9) 0) (.accept (fun _ => 0) fun _ => 0)) ∧
      (getPage.foldl (Answering.step (fun _ => 9) 0) (.accept (fun _ => 0) fun _ => 0)).conn.hs.left = 3 :=
  ⟨responses_in_order (fun _ => 9) 0 (fun _ => 0) (fun _ => 0) getPage 1 (by decide +kernel) (by decide +kernel),
    by decide +kernel⟩

end Cromwell.Http
