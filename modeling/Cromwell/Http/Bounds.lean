/-
Module: Cromwell.Http.Bounds
Layer: Proofs
Purpose: The two buffers of a connection over whole runs: `lineBuf` while the header is received, and the block
  for the body afterwards. Beside the connection a run keeps the line that is being received, the heap in which
  the block was asked for, and the number of calls of `handle_post`. For both buffers it is said which streams
  keep to them, exactly.
Imports: Cromwell.Http.Run, Cromwell.Lib.Along
Trusted boundary: human-reviewed history (Traced.recv, HeaderSafe, BodySafe)
Main exports: Traced, HeaderSafe, header_in_bounds, BodySafe, body_in_bounds
-/
import Cromwell.Http.Run
import Cromwell.Lib.Along

namespace Cromwell.Http

open ByteMemory
open Cromwell.MemoryManager (Heap Block malloc mallocBlock malloc_cases memoryManagerStart paddedSize firstFit
  clusterCount)

/-! ### Runs with their history -/

/-- A connection with what has happened to it. -/
structure Traced where
  conn : Conn
  /-- The bytes of the header line so far, without carriage returns. -/
  line : List UInt8
  /-- The heap in which `malloc` has looked for the body. -/
  heap : Heap
  /-- The calls of `handle_post`. -/
  posts : Nat

/-- The header line after another byte. -/
def nextLine (line : List UInt8) (b : UInt8) : List UInt8 :=
  if b = 0x0d then line else if b = 0x0a then [] else line ++ [b]

/-- A received byte. -/
def Traced.recv (files : Nat → Nat) (expected : Nat) (s : Traced) (r : Received) : Traced :=
  match s.conn.phase with
  | .opened =>
      if s.conn.hs.postdata = 0 then
        { conn := recvByte files expected s.conn r
          line := nextLine s.line r.byte
          heap := r.answers.heap
          posts := s.posts }
      else
        { s with
          conn := recvByte files expected s.conn r
          posts := if (s.conn.hs.postpos + 1 : Int) = s.conn.hs.postlen then s.posts + 1 else s.posts }
  | _ => s

/-- What happens to a connection, with the data of `http_recv` taken apart into bytes. -/
def Event.parts : Event → List (Received ⊕ Event)
  | .recv chain => chain.flatten.map Sum.inl
  | e => [Sum.inr e]

/-- One byte, or another event; a connection that is not open any more has none. -/
def Traced.step (files : Nat → Nat) (expected : Nat) (s : Traced) : Received ⊕ Event → Traced
  | .inl r => s.recv files expected r
  | .inr (.recv _) => s
  | .inr e =>
      match s.conn.phase with
      | .opened => { s with conn := e.apply files expected s.conn }
      | _ => s

/-- An accepted connection. -/
def Traced.accept (mem : Mem) (lineBuf : Int → UInt8) (heap : Heap) : Traced :=
  ⟨httpAccept mem lineBuf, [], heap, 0⟩

theorem Traced.recv_header (files : Nat → Nat) (expected : Nat) {s : Traced} (r : Received)
    (opened : s.conn.phase = .opened) (hpd : s.conn.hs.postdata = 0) :
    s.recv files expected r = ⟨headerByte files r s.conn, nextLine s.line r.byte, r.answers.heap, s.posts⟩ := by
  simp only [Traced.recv, recvByte, opened, if_pos hpd]

theorem Traced.recv_body (files : Nat → Nat) (expected : Nat) {s : Traced} (r : Received)
    (opened : s.conn.phase = .opened) (hpd : s.conn.hs.postdata ≠ 0) :
    s.recv files expected r = { s with
      conn := bodyByte files expected r s.conn
      posts := if (s.conn.hs.postpos + 1 : Int) = s.conn.hs.postlen then s.posts + 1 else s.posts } := by
  simp only [Traced.recv, recvByte, opened, if_neg hpd]

theorem Traced.recv_closed (files : Nat → Nat) (expected : Nat) {s : Traced} (r : Received)
    (closed : s.conn.phase ≠ .opened) : s.recv files expected r = s := by
  unfold Traced.recv
  split
  · rename_i h
    exact absurd h closed
  · rfl

theorem Traced.recv_conn (files : Nat → Nat) (expected : Nat) (s : Traced) (r : Received) :
    (s.recv files expected r).conn = recvByte files expected s.conn r := by
  unfold Traced.recv recvByte
  cases s.conn.phase with
  | opened =>
      dsimp only
      split
      · rfl
      · rfl
  | closed | gone | reflash _ _ _ => rfl

theorem Traced.recv_conns (files : Nat → Nat) (expected : Nat) (rs : List Received) (s : Traced) :
    ((rs.map Sum.inl).foldl (Traced.step files expected) s).conn = rs.foldl (recvByte files expected) s.conn := by
  induction rs generalizing s with
  | nil =>
      rfl
  | cons r rest ih =>
      rw [List.map_cons, List.foldl_cons, List.foldl_cons, ih, Traced.step, Traced.recv_conn]

/-- The parts of an event do to the connection what the event does. -/
theorem Traced.parts_conn (files : Nat → Nat) (expected : Nat) (s : Traced) (e : Event)
    (opened : s.conn.phase = .opened) :
    (e.parts.foldl (Traced.step files expected) s).conn = e.apply files expected s.conn := by
  cases e with
  | recv chain =>
      rw [Event.parts, Traced.recv_conns, Event.apply, httpRecv, List.foldl_flatten]
  | remoteClose | sent _ | poll _ | error | elsewhere _ =>
      simp only [Event.parts, List.foldl_cons, List.foldl_nil, Traced.step, opened]

/-! ### The header -/

/-- The cells of `lineBuf` that a byte of the header writes. -/
def lineWrites (c : Conn) (r : Received) : List Int :=
  if r.byte = 0x0d then []
  else if r.byte = 0x0a then [c.hs.lineBufpos]
  else if 0 ≤ c.hs.lineBufpos ∧ c.hs.lineBufpos < 256 - 2 then [c.hs.lineBufpos]
  else []

/-- A byte of the header keeps to `lineBuf`, and a line feed hands the first 254 bytes of the line on. -/
structure LineSafe (s : Traced) (r : Received) (next : Conn) : Prop where
  position : 0 ≤ s.conn.hs.lineBufpos ∧ s.conn.hs.lineBufpos ≤ 254
  after : 0 ≤ next.hs.lineBufpos ∧ next.hs.lineBufpos ≤ 254
  writes : ∀ i ∈ lineWrites s.conn r, 0 ≤ i ∧ i ≤ 255
  line : r.byte = 0x0a → ∀ i : Nat, i < (s.line.take 254).length →
    (s.conn.hs.storeLine 0).lineBuf i = (s.line.take 254).getD i 0
  closed : r.byte = 0x0a → (s.conn.hs.storeLine 0).lineBuf (s.line.take 254).length = 0

/-- While there is no buffer for a body, every byte is safe. -/
def HeaderSafe (files : Nat → Nat) (expected : Nat) (s : Traced) : Received ⊕ Event → Prop
  | .inl r => s.conn.phase = .opened → s.conn.hs.postdata = 0 → LineSafe s r (recvByte files expected s.conn r)
  | .inr _ => True

/-- No line of the header gets longer than 127 bytes, carriage returns aside. -/
def ShortLine (s : Traced) : Received ⊕ Event → Prop
  | .inl r => s.conn.phase = .opened → s.conn.hs.postdata = 0 → r.byte ≠ 0x0d → r.byte ≠ 0x0a → s.line.length < 127
  | .inr _ => True

/-- The line is in the buffer. -/
structure LineInv (s : Traced) : Prop where
  short : s.line.length ≤ 127
  position : s.conn.hs.lineBufpos = s.line.length
  stored : ∀ i : Nat, i < s.line.length → s.conn.hs.lineBuf i = s.line.getD i 0

theorem sendData_line (ans : Answers) (hs : HttpState) :
    (sendData ans hs).lineBuf = hs.lineBuf ∧ (sendData ans hs).lineBufpos = hs.lineBufpos := by
  simp only [sendData]
  split
  · exact ⟨rfl, rfl⟩
  · exact ⟨rfl, rfl⟩

theorem closeConn_hs (c : Conn) : (closeConn c).hs = c.hs := by
  unfold closeConn
  split
  · rfl
  · rfl

theorem closeConn_phase (c : Conn) : (closeConn c).phase ≠ .opened := by
  unfold closeConn
  split
  · exact Phase.noConfusion
  · exact Phase.noConfusion

/-- Nothing is received between two states. -/
structure SameInput (s s' : Traced) : Prop where
  line : s'.line = s.line
  lineBuf : s'.conn.hs.lineBuf = s.conn.hs.lineBuf
  lineBufpos : s'.conn.hs.lineBufpos = s.conn.hs.lineBufpos
  post : SamePost s.conn.hs s'.conn.hs
  body : s'.conn.body = s.conn.body
  heap : s'.heap = s.heap
  posts : s'.posts = s.posts
  opened : s'.conn.phase = .opened → s.conn.phase = .opened

theorem SameInput.refl (s : Traced) : SameInput s s := ⟨rfl, rfl, rfl, ⟨rfl, rfl, rfl⟩, rfl, rfl, rfl, id⟩

/-- The events between the bytes. -/
theorem step_event_same (files : Nat → Nat) (expected : Nat) (s : Traced) (e : Event) :
    SameInput s (s.step files expected (.inr e)) := by
  unfold Traced.step
  cases hphase : s.conn.phase with
  | opened =>
      have hopen : ∀ c : Conn, c.phase = .opened → s.conn.phase = .opened := fun _ _ => hphase
      cases e with
      | recv chain =>
          exact SameInput.refl s
      | remoteClose =>
          refine ⟨rfl, ?_, ?_, ?_, closeConn_body _, rfl, rfl, hopen _⟩
          · exact congrArg HttpState.lineBuf (closeConn_hs s.conn)
          · exact congrArg HttpState.lineBufpos (closeConn_hs s.conn)
          · dsimp only [Event.apply]
            rw [closeConn_hs]
            exact ⟨rfl, rfl, rfl⟩
      | sent ans =>
          dsimp only [Event.apply, httpSent]
          split
          · have hpost := (sendData_same ans { s.conn.hs with retries := 0 }).1
            exact ⟨rfl, (sendData_line ans _).1, (sendData_line ans _).2,
              ⟨hpost.postdata, hpost.postlen, hpost.postpos⟩, rfl, rfl, rfl, hopen _⟩
          · refine ⟨rfl, ?_, ?_, ?_, closeConn_body _, rfl, rfl, hopen _⟩
            · dsimp only
              rw [closeConn_hs]
            · dsimp only
              rw [closeConn_hs]
            · dsimp only
              rw [closeConn_hs]
              exact ⟨rfl, rfl, rfl⟩
      | poll ans =>
          dsimp only [Event.apply, httpPoll]
          split
          · exact ⟨rfl, rfl, rfl, ⟨rfl, rfl, rfl⟩, rfl, rfl, rfl, hopen _⟩
          · have hpost := (sendData_same ans { s.conn.hs with retries := s.conn.hs.retries + 1 }).1
            exact ⟨rfl, (sendData_line ans _).1, (sendData_line ans _).2,
              ⟨hpost.postdata, hpost.postlen, hpost.postpos⟩, rfl, rfl, rfl, hopen _⟩
      | error | elsewhere _ =>
          exact ⟨rfl, rfl, rfl, ⟨rfl, rfl, rfl⟩, rfl, rfl, rfl, hopen _⟩
  | closed | gone | reflash _ _ _ =>
      cases e <;> exact SameInput.refl s

theorem handlePost_same (files : Nat → Nat) (expected : Nat) (ans : Answers) (hs : HttpState) (m : Mem) :
    SamePost hs (handlePost files expected ans hs m).2.1 := by
  have hjudge : ∀ start theEnd, SamePost hs (judge files expected start theEnd (hs.select files 5)).2 := fun start theEnd =>
    have h : SamePost (hs.select files 5) (judge files expected start theEnd (hs.select files 5)).2 :=
      judge_same start theEnd
    ⟨h.postdata, h.postlen, h.postpos⟩
  have hselect : SamePost hs (hs.select files 5) := ⟨rfl, rfl, rfl⟩
  simp only [handlePost]
  split
  · exact hselect
  · split
    · split
      · exact hselect
      · exact hjudge _ _
    · split
      · exact hselect
      · exact hjudge _ _

/-- A byte of the body moves one place on. -/
theorem bodyByte_same (files : Nat → Nat) (expected : Nat) (r : Received) (c : Conn) :
    (bodyByte files expected r c).hs.postdata = c.hs.postdata ∧
      (bodyByte files expected r c).hs.postlen = c.hs.postlen ∧
      (bodyByte files expected r c).hs.postpos = c.hs.postpos + 1 ∧
      (bodyByte files expected r c).body = c.body ++ [r.byte] := by
  simp only [bodyByte]
  split
  · set mem := c.mem.store (u32 (c.hs.postdata + c.hs.postpos)) r.byte
    have hsend := (sendData_same r.answers (handlePost files expected r.answers
      { c.hs with postpos := c.hs.postpos + 1 } mem).2.1).1
    have hpost := handlePost_same files expected r.answers { c.hs with postpos := c.hs.postpos + 1 } mem
    exact ⟨hsend.postdata.trans hpost.postdata, hsend.postlen.trans hpost.postlen,
      hsend.postpos.trans hpost.postpos, rfl⟩
  · exact ⟨rfl, rfl, rfl, rfl⟩

/-- A line feed hands the line to `handle_line`. -/
theorem headerByte_line (files : Nat → Nat) (c : Conn) {r : Received} (h : r.byte = 0x0a) :
    headerByte files r c =
      match handleLine files r.answers (c.hs.storeLine 0) with
      | none => closeConn { c with hs := c.hs.storeLine 0 }
      | some hs => { c with hs := { hs with lineBufpos := 0 } } := by
  have hcr : r.byte ≠ 0x0d := by
    rw [h]
    decide
  exact (if_neg hcr).trans (if_pos h)

/-- A line feed ends the connection, or starts a new line. -/
theorem headerByte_feed (files : Nat → Nat) (c : Conn) {r : Received} (h : r.byte = 0x0a) :
    (headerByte files r c).phase ≠ .opened ∧ (headerByte files r c).hs.lineBufpos = c.hs.lineBufpos ∨
      (headerByte files r c).hs.lineBufpos = 0 := by
  rw [headerByte, if_neg (by rw [h]; decide), if_pos h]
  split
  · exact Or.inl ⟨closeConn_phase _, by rw [closeConn_hs]; rfl⟩
  · exact Or.inr rfl

/-- Any other byte is stored while the line is short. -/
theorem headerByte_store {files : Nat → Nat} {s : Traced} {r : Received} (inv : LineInv s) (hcr : r.byte ≠ 0x0d)
    (hlf : r.byte ≠ 0x0a) :
    headerByte files r s.conn = { s.conn with
      hs := { s.conn.hs.storeLine r.byte with lineBufpos := ((s.line.length : Int) + 1).bmod 256 } } := by
  have hshort := inv.short
  rw [headerByte, if_neg hcr, if_neg hlf, if_pos (by rw [inv.position]; omega), inv.position]

theorem storeLine_before {s : Traced} (inv : LineInv s) (b : UInt8) {i : Nat} (hi : i < s.line.length) :
    (s.conn.hs.storeLine b).lineBuf i = s.line.getD i 0 := by
  rw [HttpState.storeLine]
  dsimp only
  rw [if_neg (by rw [inv.position]; omega)]
  exact inv.stored i hi

theorem storeLine_at {s : Traced} (inv : LineInv s) (b : UInt8) :
    (s.conn.hs.storeLine b).lineBuf s.line.length = b := by
  rw [HttpState.storeLine]
  dsimp only
  rw [if_pos inv.position.symm]

/-- One byte of the header is safe exactly when the line stays short. -/
theorem lineSafe_iff {files : Nat → Nat} {s : Traced} {r : Received} (inv : LineInv s) :
    LineSafe s r (headerByte files r s.conn) ↔ (r.byte ≠ 0x0d → r.byte ≠ 0x0a → s.line.length < 127) := by
  have hshort := inv.short
  have hpos := inv.position
  have htake : s.line.take 254 = s.line := List.take_of_length_le (by omega)
  constructor
  · intro safe hcr hlf
    by_contra hlong
    have hlen : s.line.length = 127 := by omega
    have hafter := safe.after
    -- The position is a signed character and wraps around behind 127.
    rw [headerByte_store inv hcr hlf, hlen] at hafter
    dsimp only at hafter
    exact absurd hafter.1 (by decide)
  · intro short
    have hwrites : ∀ i ∈ lineWrites s.conn r, 0 ≤ i ∧ i ≤ 255 := by
      intro i hi
      unfold lineWrites at hi
      split_ifs at hi <;> simp_all <;> omega
    have hafter : 0 ≤ (headerByte files r s.conn).hs.lineBufpos ∧
        (headerByte files r s.conn).hs.lineBufpos ≤ 254 := by
      by_cases hcr : r.byte = 0x0d
      · rw [headerByte, if_pos hcr]
        omega
      · by_cases hlf : r.byte = 0x0a
        · rcases headerByte_feed files s.conn hlf with ⟨-, h⟩ | h <;> omega
        · have hlt := short hcr hlf
          rw [headerByte_store inv hcr hlf]
          dsimp only
          rw [Int.bmod_eq_of_le (by omega) (by omega)]
          omega
    refine ⟨by omega, hafter, hwrites, fun _ i hi => ?_, fun _ => ?_⟩
    · rw [htake] at hi ⊢
      exact storeLine_before inv 0 hi
    · rw [htake]
      exact storeLine_at inv 0

/-- The invariant of an open connection that has no body yet. -/
def HeaderInv (s : Traced) : Prop := s.conn.phase = .opened → s.conn.hs.postdata = 0 → LineInv s

/-- A byte of the header keeps the line in the buffer. -/
theorem lineInv_header {files : Nat → Nat} {s : Traced} {r : Received} (heap : Heap) (inv : LineInv s)
    (short : r.byte ≠ 0x0d → r.byte ≠ 0x0a → s.line.length < 127) (opened : (headerByte files r s.conn).phase = .opened) :
    LineInv ⟨headerByte files r s.conn, nextLine s.line r.byte, heap, s.posts⟩ := by
  by_cases hcr : r.byte = 0x0d
  · have hconn : headerByte files r s.conn = s.conn := if_pos hcr
    have hnext : nextLine s.line r.byte = s.line := if_pos hcr
    rw [hconn, hnext]
    exact ⟨inv.short, inv.position, inv.stored⟩
  · by_cases hlf : r.byte = 0x0a
    · have hnext : nextLine s.line r.byte = [] := by rw [nextLine, if_neg hcr, if_pos hlf]
      rcases headerByte_feed files s.conn hlf with ⟨hclosed, -⟩ | hzero
      · exact absurd opened hclosed
      · rw [hnext]
        exact ⟨Nat.zero_le _, hzero, fun i hi => absurd hi (Nat.not_lt_zero i)⟩
    · have hlt := short hcr hlf
      have hnext : nextLine s.line r.byte = s.line ++ [r.byte] := by rw [nextLine, if_neg hcr, if_neg hlf]
      rw [hnext, headerByte_store inv hcr hlf]
      have hlen : (s.line ++ [r.byte]).length = s.line.length + 1 := List.length_append
      refine ⟨?_, ?_, ?_⟩
      · dsimp only
        omega
      · dsimp only
        rw [Int.bmod_eq_of_le (by omega) (by omega), hlen, Nat.cast_add, Nat.cast_one]
      · intro i hi
        dsimp only at hi ⊢
        rw [hlen] at hi
        rcases Nat.lt_succ_iff_lt_or_eq.mp hi with hi | rfl
        · rw [bytes_append_lt hi]
          exact storeLine_before inv r.byte hi
        · rw [bytes_append_last]
          exact storeLine_at inv r.byte

theorem headerInv_recv {files : Nat → Nat} {expected : Nat} {s : Traced} {r : Received} (inv : HeaderInv s)
    (short : ShortLine s (.inl r)) : HeaderInv (s.recv files expected r) := by
  intro hopen' hpd'
  by_cases hphase : s.conn.phase = .opened
  · by_cases hpd : s.conn.hs.postdata = 0
    · rw [Traced.recv_header files expected r hphase hpd] at hopen' ⊢
      exact lineInv_header _ (inv hphase hpd) (short hphase hpd) hopen'
    · rw [Traced.recv_body files expected r hphase hpd] at hpd'
      exact absurd ((bodyByte_same files expected r s.conn).1.symm.trans hpd') hpd
  · rw [Traced.recv_closed files expected r hphase] at hopen'
    exact absurd hopen' hphase

/-- For every connection, every stream and every segmentation of it: the header stays within `lineBuf` exactly
    when its lines have at most 127 bytes. -/
theorem header_in_bounds (files : Nat → Nat) (expected : Nat) (mem : Mem) (lineBuf : Int → UInt8) (heap : Heap)
    (events : List Event) :
    Along (Traced.step files expected) (HeaderSafe files expected) (Traced.accept mem lineBuf heap)
        (events.flatMap Event.parts) ↔
      Along (Traced.step files expected) ShortLine (Traced.accept mem lineBuf heap)
        (events.flatMap Event.parts) := by
  refine Along.iff_of_inv (I := HeaderInv) (E := fun _ => True) (fun s e _ inv short => ?_) (fun s e _ inv => ?_) ?_
    fun _ _ => trivial
  · cases e with
    | inl r =>
        exact headerInv_recv inv short
    | inr e =>
        have same := step_event_same files expected s e
        intro hopen hpd
        have hline := inv (same.opened hopen) (same.post.postdata.symm.trans hpd)
        exact ⟨by rw [same.line]; exact hline.short, by rw [same.line, same.lineBufpos]; exact hline.position,
          by rw [same.line, same.lineBuf]; exact hline.stored⟩
  · cases e with
    | inl r =>
        refine forall_congr' fun hopen => forall_congr' fun hpd => ?_
        rw [recvByte, hopen]
        simp only [if_pos hpd]
        exact lineSafe_iff (inv hopen hpd)
    | inr e =>
        exact Iff.rfl
  · exact fun _ _ => ⟨Nat.zero_le _, rfl, fun i hi => absurd hi (Nat.not_lt_zero i)⟩

/-- An accepted connection over a zeroed memory. -/
def freshTraced : Traced := .accept (fun _ => 0) (fun _ => 0) (freshAnswers 0 0).heap

/-- A connection that has received some bytes. -/
def afterBytes (bytes : List UInt8) : Traced :=
  ((arriving (freshAnswers 0 0) bytes).map Sum.inl).foldl (Traced.step (fun _ => 0) 0) freshTraced

/-- The line feed behind 128 letters is overwritten 128 bytes before `lineBuf`. -/
theorem long_line_leaves_buffer :
    ¬ Along (Traced.step (fun _ => 0) 0) (HeaderSafe (fun _ => 0) 0) freshTraced
      ([Event.recv [arriving (freshAnswers 0 0) (List.replicate 128 0x41 ++ [0x0a])]].flatMap Event.parts) := by
  intro h
  have hparts : [Event.recv [arriving (freshAnswers 0 0) (List.replicate 128 0x41 ++ [0x0a])]].flatMap Event.parts =
      (arriving (freshAnswers 0 0) (List.replicate 128 0x41)).map Sum.inl ++ [Sum.inl ⟨0x0a, freshAnswers 0 0⟩] := by
    simp [Event.parts, arriving]
  rw [hparts] at h
  have hopen : (afterBytes (List.replicate 128 0x41)).conn.phase = .opened := by decide +kernel
  have hpd : (afterBytes (List.replicate 128 0x41)).conn.hs.postdata = 0 := by decide +kernel
  have hpos : (afterBytes (List.replicate 128 0x41)).conn.hs.lineBufpos = -128 := by decide +kernel
  have hsafe : HeaderSafe (fun _ => 0) 0 (afterBytes (List.replicate 128 0x41)) (.inl ⟨0x0a, freshAnswers 0 0⟩) := h.last
  generalize afterBytes (List.replicate 128 0x41) = s at hopen hpd hpos hsafe
  exact absurd ((hsafe hopen hpd).position.1.trans_eq hpos) (by decide)

/-! ### The body -/

/-- What `handle_line` has asked `malloc` for. -/
def HttpState.request (hs : HttpState) : Nat := (hs.postlen % 2 ^ 32).toNat

/-- A byte of the body is stored below the declared length and in the block that `malloc` has handed out, and
    `handle_post` has run once at most afterwards. -/
structure StoreSafe (s next : Traced) : Prop where
  position : 0 ≤ (s.conn.hs.postpos : Int) ∧ (s.conn.hs.postpos : Int) < s.conn.hs.postlen
  inBlock : ∃ b, mallocBlock s.heap s.conn.hs.request = some b ∧
    b.ptr ≤ u32 (s.conn.hs.postdata + s.conn.hs.postpos) ∧ u32 (s.conn.hs.postdata + s.conn.hs.postpos) < b.ptr + b.size
  posts : next.posts ≤ 1

/-- Once there is a buffer for the body, every byte is safe. -/
def BodySafe (files : Nat → Nat) (expected : Nat) (s : Traced) : Received ⊕ Event → Prop
  | .inl r => s.conn.phase = .opened → s.conn.hs.postdata ≠ 0 → StoreSafe s (s.recv files expected r)
  | .inr _ => True

/-- There was room for the body, and fewer bytes than declared have been received. -/
def DeclaredByte (s : Traced) : Received ⊕ Event → Prop
  | .inl _ => s.conn.phase = .opened → s.conn.hs.postdata ≠ 0 →
      paddedSize s.conn.hs.request ≤ 0x500000 ∧
        (firstFit s.heap (clusterCount (paddedSize s.conn.hs.request))).isSome ∧
        (s.conn.body.length : Int) < s.conn.hs.postlen
  | .inr _ => True

instance (s : Traced) : (e : Received ⊕ Event) → Decidable (DeclaredByte s e)
  | .inl _ => inferInstanceAs (Decidable (_ → _ → _ ∧ _ ∧ _))
  | .inr _ => inferInstanceAs (Decidable True)

/-- The allocator has been set up when a byte arrives. -/
def HeapReady : Received ⊕ Event → Prop
  | .inl r => r.answers.heap.memoryManagerStartAddress = memoryManagerStart
  | .inr _ => True

/-- The body while it is received. -/
structure BlockInv (s : Traced) : Prop where
  start : s.heap.memoryManagerStartAddress = memoryManagerStart
  postdata : s.conn.hs.postdata = (malloc s.heap s.conn.hs.request).1
  count : s.conn.hs.postpos = s.conn.body.length
  posts : (s.conn.body.length : Int) < s.conn.hs.postlen → s.posts = 0

/-- The invariant of an open connection. -/
structure BodyInv (s : Traced) : Prop where
  header : s.conn.hs.postdata = 0 → s.conn.body = [] ∧ s.posts = 0
  block : s.conn.hs.postdata ≠ 0 → BlockInv s
  postlen : s.conn.hs.postlen < 2 ^ 31

theorem headerByte_body (files : Nat → Nat) (r : Received) (c : Conn) : (headerByte files r c).body = c.body := by
  unfold headerByte
  split
  · rfl
  · split
    · split
      · exact closeConn_body _
      · rfl
    · split
      · rfl
      · rfl

/-- A byte of the header leaves the connection without a block, or has just got one. -/
theorem headerByte_post (files : Nat → Nat) {c : Conn} (r : Received) (hpd : c.hs.postdata = 0)
    (bound : c.hs.postlen < 2 ^ 31) :
    (headerByte files r c).hs.postlen < 2 ^ 31 ∧ ((headerByte files r c).hs.postdata = 0 ∨
      (headerByte files r c).hs.postdata = (malloc r.answers.heap (headerByte files r c).hs.request).1 ∧
        (headerByte files r c).hs.postpos = 0) := by
  unfold headerByte
  split
  · exact ⟨bound, Or.inl hpd⟩
  · split
    · cases hl : handleLine files r.answers (c.hs.storeLine 0) with
      | none =>
          dsimp only
          rw [closeConn_hs]
          exact ⟨bound, Or.inl hpd⟩
      | some hs' =>
          obtain ⟨-, hlen, hcase⟩ := handleLine_spec hl bound
          refine ⟨hlen, ?_⟩
          rcases hcase with ⟨hpd', -⟩ | ⟨hpd', hpos', hlen'⟩
          · exact Or.inl (hpd'.trans hpd)
          · refine Or.inr ⟨?_, hpos'⟩
            dsimp only [HttpState.request]
            rw [hlen']
            exact hpd'
    · split
      · exact ⟨bound, Or.inl hpd⟩
      · exact ⟨bound, Or.inl hpd⟩

/-- A byte of the body is safe exactly when it belongs to the body. -/
theorem storeSafe_iff {files : Nat → Nat} {expected : Nat} {s : Traced} {r : Received} (opened : s.conn.phase = .opened)
    (hpd : s.conn.hs.postdata ≠ 0) (inv : BlockInv s) (bound : s.conn.hs.postlen < 2 ^ 31) :
    StoreSafe s (s.recv files expected r) ↔
      paddedSize s.conn.hs.request ≤ 0x500000 ∧
        (firstFit s.heap (clusterCount (paddedSize s.conn.hs.request))).isSome ∧
        (s.conn.body.length : Int) < s.conn.hs.postlen := by
  rw [← inv.count]
  constructor
  · intro safe
    obtain ⟨b, hb, -, -⟩ := safe.inBlock
    rcases malloc_cases inv.start s.conn.hs.request with ⟨hnone, -, -⟩ | ⟨c, hfits, hfit, -, -⟩
    · exact absurd (hnone.symm.trans hb) (Option.some_ne_none b).symm
    · exact ⟨hfits, Option.isSome_of_eq_some hfit, safe.position.2⟩
  · rintro ⟨hfits, hfit, hlt⟩
    have hreq : (s.conn.hs.request : Int) = s.conn.hs.postlen := by
      unfold HttpState.request
      omega
    rcases malloc_cases inv.start s.conn.hs.request with ⟨-, hfail, -⟩ | ⟨c, -, hc, hblock, hmalloc⟩
    · rcases hfail with hbig | hnone
      · exact absurd hfits (not_le.mpr hbig)
      · rw [hnone] at hfit
        cases hfit
    · obtain ⟨-, hlast, -, -⟩ := MemoryManager.firstFit_eq_some.mp hc
      have hstart : memoryManagerStart = 0x02A00000 := rfl
      have hpad : paddedSize s.conn.hs.request = (s.conn.hs.request + 0x200) / 0x100 * 0x100 :=
        MemoryManager.paddedSize_eq (by omega)
      have hdata : s.conn.hs.postdata = memoryManagerStart + c * 0x4000 + 0x100 := by
        rw [inv.postdata, hmalloc]
      refine ⟨⟨by omega, hlt⟩, ⟨_, hblock, ?_, ?_⟩, ?_⟩
      · dsimp only
        rw [hdata, u32_of_lt (by omega)]
        omega
      · dsimp only
        rw [hdata, u32_of_lt (by omega)]
        omega
      · rw [Traced.recv_body files expected r opened hpd]
        dsimp only
        rw [inv.posts (by rw [← inv.count]; exact hlt)]
        split
        · exact Nat.le_refl 1
        · exact Nat.zero_le 1

/-- A byte of the header, where there is no body. -/
theorem bodyInv_header {files : Nat → Nat} {s : Traced} {r : Received}
    (heap : r.answers.heap.memoryManagerStartAddress = memoryManagerStart) (inv : BodyInv s)
    (hpd : s.conn.hs.postdata = 0) :
    BodyInv ⟨headerByte files r s.conn, nextLine s.line r.byte, r.answers.heap, s.posts⟩ := by
  obtain ⟨hbody, hposts⟩ := inv.header hpd
  have hbody' : (headerByte files r s.conn).body = [] := (headerByte_body files r s.conn).trans hbody
  obtain ⟨hlen, hpost⟩ := headerByte_post files r hpd inv.postlen
  refine ⟨fun _ => ⟨hbody', hposts⟩, fun hne => ?_, hlen⟩
  rcases hpost with hzero | ⟨hdata, hpos⟩
  · exact absurd hzero hne
  · refine ⟨heap, hdata, ?_, fun _ => hposts⟩
    dsimp only
    rw [hpos, hbody', List.length_nil]

/-- A byte of the body, which makes the body longer by one. -/
theorem bodyInv_body {files : Nat → Nat} {expected : Nat} {s : Traced} {r : Received} (opened : s.conn.phase = .opened)
    (inv : BodyInv s) (hpd : s.conn.hs.postdata ≠ 0) (hlt : (s.conn.body.length : Int) < s.conn.hs.postlen) :
    BodyInv (s.recv files expected r) := by
  obtain ⟨hdata, hlen, hpos, hbody⟩ := bodyByte_same files expected r s.conn
  have hblock := inv.block hpd
  have hcount := hblock.count
  rw [Traced.recv_body files expected r opened hpd]
  refine ⟨fun h => absurd (hdata.symm.trans h) hpd, fun _ => ⟨hblock.start, ?_, ?_, ?_⟩, ?_⟩
  · dsimp only [HttpState.request]
    rw [hdata, hlen]
    exact hblock.postdata
  · dsimp only
    rw [hpos, hbody, hcount, List.length_append, List.length_singleton]
  · dsimp only
    rw [hbody, hlen, List.length_append, List.length_singleton]
    intro hmore
    rw [if_neg (by omega)]
    exact hblock.posts hlt
  · dsimp only
    rw [hlen]
    exact inv.postlen

/-- The invariant of a run. -/
def OpenBodyInv (s : Traced) : Prop := s.conn.phase = .opened → BodyInv s

theorem openBodyInv_step {files : Nat → Nat} {expected : Nat} (s : Traced) (e : Received ⊕ Event) (ready : HeapReady e)
    (inv : OpenBodyInv s) (declared : DeclaredByte s e) : OpenBodyInv (s.step files expected e) := by
  intro hopen
  cases e with
  | inl r =>
      change (s.recv files expected r).conn.phase = .opened at hopen
      change BodyInv (s.recv files expected r)
      by_cases hphase : s.conn.phase = .opened
      · by_cases hpd : s.conn.hs.postdata = 0
        · rw [Traced.recv_header files expected r hphase hpd]
          exact bodyInv_header ready (inv hphase) hpd
        · exact bodyInv_body hphase (inv hphase) hpd (declared hphase hpd).2.2
      · rw [Traced.recv_closed files expected r hphase] at hopen
        exact absurd hopen hphase
  | inr e =>
      have same := step_event_same files expected s e
      have hinv := inv (same.opened hopen)
      refine ⟨fun h => ?_, fun h => ?_, ?_⟩
      · rw [same.body, same.posts]
        exact hinv.header (same.post.postdata.symm.trans h)
      · have hblock := hinv.block fun h' => h (same.post.postdata.trans h')
        refine ⟨?_, ?_, ?_, ?_⟩
        · rw [same.heap]
          exact hblock.start
        · rw [HttpState.request, same.post.postdata, same.post.postlen, same.heap]
          exact hblock.postdata
        · rw [same.post.postpos, same.body]
          exact hblock.count
        · rw [same.body, same.post.postlen, same.posts]
          exact hblock.posts
      · rw [same.post.postlen]
        exact hinv.postlen

/-- For every connection, every stream and every segmentation of it: the bytes of the body stay within the block
    exactly when there was room for the body and no byte arrives behind the declared length. -/
theorem body_in_bounds (files : Nat → Nat) (expected : Nat) (mem : Mem) (lineBuf : Int → UInt8) (heap : Heap)
    (events : List Event) (ready : ∀ e ∈ events, ∀ part ∈ e.parts, HeapReady part) :
    Along (Traced.step files expected) (BodySafe files expected) (Traced.accept mem lineBuf heap)
        (events.flatMap Event.parts) ↔
      Along (Traced.step files expected) DeclaredByte (Traced.accept mem lineBuf heap)
        (events.flatMap Event.parts) := by
  refine Along.iff_of_inv (I := OpenBodyInv) (E := HeapReady) openBodyInv_step (fun s e _ inv => ?_) ?_ ?_
  · cases e with
    | inl r =>
        refine forall_congr' fun hopen => forall_congr' fun hpd => ?_
        exact storeSafe_iff hopen hpd ((inv hopen).block hpd) (inv hopen).postlen
    | inr e =>
        exact Iff.rfl
  · exact fun _ => ⟨fun _ => ⟨rfl, rfl⟩, fun h => absurd rfl h, by norm_num [Traced.accept, httpAccept]⟩
  · intro part hpart
    obtain ⟨e, he, hmem⟩ := List.mem_flatMap.mp hpart
    exact ready e he part hmem

theorem arriving_ready (bytes : List UInt8) :
    ∀ e ∈ [Event.recv [arriving (freshAnswers 0 0) bytes]], ∀ part ∈ e.parts, HeapReady part := by
  intro e he part hpart
  rw [List.mem_singleton.mp he, Event.parts, List.mem_map] at hpart
  obtain ⟨r, hr, rfl⟩ := hpart
  rw [List.flatten_singleton, arriving, List.mem_map] at hr
  obtain ⟨b, -, rfl⟩ := hr
  rfl

/-- Two bytes for `Content-Length: 2`. -/
theorem body_in_bounds_two_bytes :
    (∀ e ∈ [Event.recv [arriving (freshAnswers 0 0) (postHeader [0x32] ++ [0x61, 0x62])]], ∀ part ∈ e.parts,
        HeapReady part) ∧
      Along (Traced.step (fun _ => 0) 0) (BodySafe (fun _ => 0) 0) freshTraced
        ([Event.recv [arriving (freshAnswers 0 0) (postHeader [0x32] ++ [0x61, 0x62])]].flatMap Event.parts) :=
  ⟨arriving_ready _, (body_in_bounds (fun _ => 0) 0 (fun _ => 0) (fun _ => 0) (freshAnswers 0 0).heap _
    (arriving_ready _)).mpr (by decide +kernel)⟩

/-- A third byte is stored behind the declared length of two. -/
theorem surplus_byte_leaves_body :
    ¬ Along (Traced.step (fun _ => 0) 0) (BodySafe (fun _ => 0) 0) freshTraced
      ([Event.recv [arriving (freshAnswers 0 0) (postHeader [0x32] ++ [0x61, 0x62] ++ [0x63])]].flatMap
        Event.parts) := by
  intro h
  have hparts : [Event.recv [arriving (freshAnswers 0 0) (postHeader [0x32] ++ [0x61, 0x62] ++ [0x63])]].flatMap
      Event.parts = (arriving (freshAnswers 0 0) (postHeader [0x32] ++ [0x61, 0x62])).map Sum.inl ++
        [Sum.inl ⟨0x63, freshAnswers 0 0⟩] := by
    simp [Event.parts, arriving]
  rw [hparts] at h
  have hopen : (afterBytes (postHeader [0x32] ++ [0x61, 0x62])).conn.phase = .opened := by decide +kernel
  have hpd : (afterBytes (postHeader [0x32] ++ [0x61, 0x62])).conn.hs.postdata ≠ 0 := by decide +kernel
  have hpos : (afterBytes (postHeader [0x32] ++ [0x61, 0x62])).conn.hs.postpos = 2 := by decide +kernel
  have hlen : (afterBytes (postHeader [0x32] ++ [0x61, 0x62])).conn.hs.postlen = 2 := by decide +kernel
  have hsafe : BodySafe (fun _ => 0) 0 (afterBytes (postHeader [0x32] ++ [0x61, 0x62]))
      (.inl ⟨0x63, freshAnswers 0 0⟩) := h.last
  generalize afterBytes (postHeader [0x32] ++ [0x61, 0x62]) = s at hopen hpd hpos hlen hsafe
  have hlt := (hsafe hopen hpd).position.2
  rw [hpos, hlen] at hlt
  exact absurd hlt (by decide)

end Cromwell.Http
