/-
Module: Cromwell.Http.Ledger
Layer: Proofs
Purpose: What the server takes from the heap and what it gives back, over any number of connections and any order of
  their events. Each connection keeps the list of its calls: the `mem_malloc` of its state, the `malloc` of its
  upload buffer, and the two frees. A connection that is closed releases both; one that dies by `conn_err` releases
  its state only, and this is the one way to lose a buffer.
Imports: Cromwell.Http.Bounds
Trusted boundary: human-reviewed history (HeapAct, Tracked.step, Server.step) and statement (Released, Once)
Main exports: HeapAct, Tracked, Server, Released, Once, KeepsBuffers, uploads_released
-/
import Cromwell.Http.Bounds

namespace Cromwell.Http

open ByteMemory
open Cromwell.MemoryManager (Heap tMalloc malloc paddedSize memoryManagerStart)

/-! ### Heap calls -/

/-- The heap calls of a connection. -/
inductive HeapAct where
  /-- `mem_malloc(sizeof(struct http_state))` in `http_accept`. -/
  | mallocState
  /-- `malloc(hs->postlen)` in `handle_line`, when there is room. -/
  | mallocBody (ptr : Nat)
  /-- `free(hs->postdata)`. -/
  | freeBody (ptr : Nat)
  /-- `mem_free(hs)`. -/
  | freeState
deriving DecidableEq, Repr

/-- The buffer that a line feed gets for the body: at the end of the header of a `POST` with a length. -/
def bodyMalloc (c : Conn) (r : Received) : List HeapAct :=
  let hs := c.hs.storeLine 0
  if c.hs.postdata = 0 ∧ r.byte = 0x0a ∧ hs.gotfirst ∧ hs.lineBuf 0 = 0 ∧ hs.ispost ∧ hs.postlen ≠ 0 ∧
      (tMalloc r.answers.heap (paddedSize hs.request)).1 ≠ 0 then
    [.mallocBody (malloc r.answers.heap hs.request).1]
  else []

/-- The frees of `close_conn` and of `conn_err`. While an image is flashed nothing is freed. -/
def ending (c : Conn) : List HeapAct :=
  match c.phase with
  | .closed => (if c.hs.postdata ≠ 0 then [.freeBody c.hs.postdata] else []) ++ [.freeState]
  | .gone => [.freeState]
  | _ => []

theorem ending_open {c : Conn} (opened : c.phase = .opened) : ending c = [] := by
  simp only [ending, opened]

/-- A connection after a part of an event. Behind `close_conn` the callbacks find NULL, and behind `conn_err` there
    are none. -/
def Conn.part (files : Nat → Nat) (expected : Nat) (c : Conn) : Received ⊕ Event → Conn
  | .inl r => recvByte files expected c r
  | .inr (.recv _) => c
  | .inr e =>
      match c.phase with
      | .opened => e.apply files expected c
      | _ => c

theorem Traced.step_conn (files : Nat → Nat) (expected : Nat) (s : Traced) (e : Received ⊕ Event) :
    (s.step files expected e).conn = s.conn.part files expected e := by
  cases e with
  | inl r => exact s.recv_conn files expected r
  | inr e =>
      cases e with
      | recv chain => rfl
      | remoteClose | sent _ | poll _ | error | elsewhere _ =>
          cases hphase : s.conn.phase with
          | opened | closed | gone | reflash _ _ _ => simp only [Traced.step, Conn.part, hphase]

/-- A connection with its heap calls. -/
structure Tracked where
  conn : Conn
  acts : List HeapAct

/-- The calls of one part of an event. -/
def Conn.acts (files : Nat → Nat) (expected : Nat) (c : Conn) (e : Received ⊕ Event) : List HeapAct :=
  (match e with
    | .inl r => bodyMalloc c r
    | .inr _ => []) ++ ending (c.part files expected e)

def Tracked.step (files : Nat → Nat) (expected : Nat) (t : Tracked) (e : Received ⊕ Event) : Tracked :=
  match t.conn.phase with
  | .opened => { conn := t.conn.part files expected e, acts := t.acts ++ t.conn.acts files expected e }
  | _ => t

/-! ### The server -/

/-- The memory, and the connections in the order in which they were accepted. -/
structure Server where
  mem : Mem
  conns : List Tracked

/-- What can happen to the server. -/
inductive ServerEvent where
  /-- `http_accept`: the `lineBuf` of the new state, or `none` when there is no room for a state. -/
  | accept (lineBuf : Option (Int → UInt8))
  /-- An event of a connection. -/
  | on (i : Nat) (e : Received ⊕ Event)
  /-- Other code runs and leaves the memory as given. -/
  | elsewhere (mem : Mem)

/-- `BootReflashAndReset` has been called; it does not return. -/
def Conn.flashing (c : Conn) : Bool :=
  match c.phase with
  | .reflash _ _ _ => true
  | _ => false

def Server.halted (s : Server) : Bool := s.conns.any fun t => t.conn.flashing

/-- A connection on the memory of the server. -/
def Tracked.over (t : Tracked) (mem : Mem) : Tracked := { t with conn := { t.conn with mem := mem } }

def Server.step (files : Nat → Nat) (expected : Nat) (s : Server) (e : ServerEvent) : Server :=
  if s.halted then s
  else
    match e with
    | .accept none => s
    | .accept (some lineBuf) => { s with conns := s.conns ++ [⟨httpAccept s.mem lineBuf, [.mallocState]⟩] }
    | .on i e =>
        match s.conns[i]? with
        | none => s
        | some t =>
            let t := (t.over s.mem).step files expected e
            { mem := t.conn.mem, conns := s.conns.set i t }
    | .elsewhere mem => { s with mem := mem }

/-- Before the first connection. -/
def Server.start (mem : Mem) : Server := ⟨mem, []⟩

/-! ### What is released -/

/-- Whenever the state is freed, every buffer has been freed before. -/
def Released (acts : List HeapAct) : Prop :=
  ∀ before after, acts = before ++ .freeState :: after → ∀ ptr, .mallocBody ptr ∈ before → .freeBody ptr ∈ before

/-- The state is freed at most once, and so is every buffer. -/
def Once (acts : List HeapAct) : Prop :=
  acts.count .freeState ≤ 1 ∧ ∀ ptr, .mallocBody ptr ∈ acts → acts.count (.freeBody ptr) ≤ 1

/-- A connection has a buffer that it has not given back. -/
def Tracked.holdsBuffer (t : Tracked) : Prop := ∃ ptr, .mallocBody ptr ∈ t.acts

/-- The event runs `conn_err`: an error, or the fourth poll in a row. -/
def Dies (c : Conn) : Received ⊕ Event → Prop
  | .inr .error => True
  | .inr (.poll _) => c.hs.retries + 1 = 4
  | _ => False

/-- No connection dies by `conn_err` while it has a buffer. -/
def KeepsBuffers (s : Server) : ServerEvent → Prop
  | .on i e => s.halted = false → ∀ t, s.conns[i]? = some t → t.conn.phase = .opened → Dies t.conn e → ¬ t.holdsBuffer
  | _ => True

/-- The allocator has been set up when a byte arrives. -/
def ServerEvent.HeapReady : ServerEvent → Prop
  | .on _ e => Http.HeapReady e
  | _ => True

/-- Nothing is lost and nothing is freed twice. -/
def Clean (acts : List HeapAct) : Prop := Released acts ∧ Once acts

/-! ### Lists of calls -/

theorem released_of_not_freed {acts : List HeapAct} (h : .freeState ∉ acts) : Released acts := by
  intro before after hacts
  rw [hacts] at h
  exact absurd (List.mem_append_right before List.mem_cons_self) h

/-- The state is freed at the end of the list. -/
theorem released_append {acts : List HeapAct} (h : .freeState ∉ acts) :
    Released (acts ++ [.freeState]) ↔ ∀ ptr, .mallocBody ptr ∈ acts → .freeBody ptr ∈ acts := by
  constructor
  · exact fun hreleased => hreleased acts [] rfl
  · intro hfreed before after hacts
    -- the call before which the list is cut is the last one, because there is no other
    have hlast : before = acts := by
      rcases List.append_eq_append_iff.mp hacts with ⟨rest, hbefore, hrest⟩ | ⟨rest, hacts', hrest⟩
      · cases rest with
        | nil => exact hbefore.trans (List.append_nil acts)
        | cons a rest =>
            have hlength := congrArg List.length hrest
            simp at hlength
      · cases rest with
        | nil => exact (hacts'.trans (List.append_nil before)).symm
        | cons a rest =>
            rw [List.cons_append, List.cons.injEq] at hrest
            rw [hacts', ← hrest.1] at h
            exact absurd (List.mem_append_right before List.mem_cons_self) h
    rw [hlast]
    exact hfreed

/-- The calls of an open connection: its state, and the buffer if there is one. -/
def OpenActs (c : Conn) (acts : List HeapAct) : Prop :=
  acts = [.mallocState] ∨ ∃ ptr, acts = [.mallocState, .mallocBody ptr] ∧ c.hs.postdata = ptr ∧ ptr ≠ 0

theorem OpenActs.not_freed {c : Conn} {acts : List HeapAct} (h : OpenActs c acts) : .freeState ∉ acts := by
  rcases h with rfl | ⟨ptr, rfl, -⟩
  · simp
  · simp

theorem OpenActs.clean {c : Conn} {acts : List HeapAct} (h : OpenActs c acts) : Clean acts := by
  refine ⟨released_of_not_freed h.not_freed, ?_⟩
  rcases h with rfl | ⟨ptr, rfl, -⟩
  · simp [Once]
  · simp [Once]

/-- How an open connection ends decides whether something is lost. -/
theorem OpenActs.ending {c c' : Conn} {acts : List HeapAct} (h : OpenActs c acts)
    (same : c'.hs.postdata = c.hs.postdata) :
    Clean (acts ++ Http.ending c') ↔ ¬ (c'.phase = .gone ∧ ∃ ptr, .mallocBody ptr ∈ acts) := by
  have hclean : Clean (acts ++ []) := (List.append_nil acts).symm ▸ h.clean
  cases hphase : c'.phase with
  | opened | reflash _ _ _ =>
      simp only [Http.ending, hphase]
      exact iff_of_true hclean fun hgone => Phase.noConfusion hgone.1
  | closed =>
      refine iff_of_true ?_ fun hgone => Phase.noConfusion hgone.1
      simp only [Http.ending, hphase, ← List.append_assoc]
      rcases h with rfl | ⟨ptr, rfl, hptr, hnonzero⟩
      · split
        · exact ⟨(released_append (by simp)).mpr (by simp), by simp [Once]⟩
        · exact ⟨(released_append (by simp)).mpr (by simp), by simp [Once]⟩
      · rw [same, hptr, if_pos hnonzero]
        exact ⟨(released_append (by simp)).mpr (by simp), by simp [Once]⟩
  | gone =>
      simp only [Http.ending, hphase, true_and]
      rcases h with rfl | ⟨ptr, rfl, -⟩
      · exact iff_of_true ⟨(released_append (by simp)).mpr (by simp), by simp [Once]⟩ (by simp)
      · refine iff_of_false (fun hall => ?_) (by simp)
        have hfreed := (released_append (by simp)).mp hall.1 ptr (by simp)
        simp at hfreed

/-! ### One connection -/

theorem closeConn_not_gone (c : Conn) : (closeConn c).phase ≠ .gone := by
  unfold closeConn
  split
  · exact Phase.noConfusion
  · exact Phase.noConfusion

theorem part_open (files : Nat → Nat) (expected : Nat) {c : Conn} (opened : c.phase = .opened) (e : Event)
    (noData : ∀ chain, e ≠ .recv chain) : c.part files expected (.inr e) = e.apply files expected c := by
  obtain ⟨hs, mem, phase, body⟩ := c
  cases opened
  cases e with
  | recv chain => exact absurd rfl (noData chain)
  | remoteClose | sent _ | poll _ | error | elsewhere _ => rfl

/-- An event that is not a byte leaves the buffer, and it ends in `conn_err` when the connection dies. -/
theorem part_event (files : Nat → Nat) (expected : Nat) {c : Conn} (opened : c.phase = .opened) (e : Event) :
    (c.part files expected (.inr e)).hs.postdata = c.hs.postdata ∧
      ((c.part files expected (.inr e)).phase = .gone ↔ Dies c (.inr e)) := by
  have hopen : ¬ c.phase = .gone := by
    rw [opened]
    exact Phase.noConfusion
  have hpart := part_open files expected opened e
  cases e with
  | recv chain => exact ⟨rfl, iff_of_false hopen id⟩
  | remoteClose =>
      rw [hpart fun _ => Event.noConfusion, Event.apply]
      exact ⟨congrArg HttpState.postdata (closeConn_hs c), iff_of_false (closeConn_not_gone c) id⟩
  | sent ans =>
      rw [hpart fun _ => Event.noConfusion, Event.apply, httpSent]
      dsimp only
      split
      · exact ⟨(sendData_same ans { c.hs with retries := 0 }).1.postdata, iff_of_false hopen id⟩
      · refine ⟨?_, iff_of_false (closeConn_not_gone _) id⟩
        rw [closeConn_hs]
  | poll ans =>
      rw [hpart fun _ => Event.noConfusion, Event.apply, httpPoll]
      dsimp only
      split
      · rename_i hlast
        exact ⟨rfl, iff_of_true rfl hlast⟩
      · rename_i hlast
        exact ⟨(sendData_same ans { c.hs with retries := c.hs.retries + 1 }).1.postdata, iff_of_false hopen hlast⟩
  | error =>
      rw [hpart fun _ => Event.noConfusion]
      exact ⟨rfl, iff_of_true rfl trivial⟩
  | elsewhere mem =>
      rw [hpart fun _ => Event.noConfusion]
      exact ⟨rfl, iff_of_false hopen id⟩

/-- What `handle_line` does at the end of a header that announces a body. -/
theorem handleLine_body {files : Nat → Nat} {ans : Answers} {hs hs' : HttpState} (first : hs.gotfirst = true)
    (empty : hs.lineBuf 0 = 0) (body : hs.ispost = true ∧ hs.postlen ≠ 0) (h : handleLine files ans hs = some hs') :
    hs'.postdata = (malloc ans.heap hs.request).1 := by
  rw [handleLine, if_pos first, if_pos empty, headerEnd, if_pos body] at h
  cases h
  rw [contentLength_empty]
  · rfl
  · exact empty

/-- The connection as a line that was refused leaves it. -/
theorem headerByte_refused (files : Nat → Nat) {c : Conn} {r : Received} (opened : c.phase = .opened)
    (hpd : c.hs.postdata = 0) : (headerByte files r c).phase ≠ .gone ∧
      ((headerByte files r c).phase ≠ .opened → (headerByte files r c).hs.postdata = 0) := by
  have hopen : c.phase ≠ .gone := by
    rw [opened]
    exact Phase.noConfusion
  unfold headerByte
  split
  · exact ⟨hopen, fun h => absurd opened h⟩
  · split
    · split
      · refine ⟨closeConn_not_gone _, fun _ => ?_⟩
        rw [closeConn_hs]
        exact hpd
      · exact ⟨hopen, fun h => absurd opened h⟩
    · split
      · exact ⟨hopen, fun h => absurd opened h⟩
      · exact ⟨hopen, fun h => absurd opened h⟩

/-- A byte of the header. -/
theorem part_header (files : Nat → Nat) (expected : Nat) {c : Conn} {r : Received} (opened : c.phase = .opened)
    (hpd : c.hs.postdata = 0) (ready : HeapReady (.inl r)) :
    (∃ ptr, bodyMalloc c r = [.mallocBody ptr] ∧ (c.part files expected (.inl r)).phase = .opened ∧
        (c.part files expected (.inl r)).hs.postdata = ptr ∧ ptr ≠ 0) ∨
      bodyMalloc c r = [] ∧ (c.part files expected (.inl r)).phase ≠ .gone ∧
        ((c.part files expected (.inl r)).phase ≠ .opened → (c.part files expected (.inl r)).hs.postdata = 0) := by
  have hpart : c.part files expected (.inl r) = headerByte files r c := by
    simp only [Conn.part, recvByte, opened, if_pos hpd]
  have hrefused := headerByte_refused files (r := r) opened hpd
  rw [hpart]
  by_cases hasks : c.hs.postdata = 0 ∧ r.byte = 0x0a ∧ (c.hs.storeLine 0).gotfirst ∧
      (c.hs.storeLine 0).lineBuf 0 = 0 ∧ (c.hs.storeLine 0).ispost ∧ (c.hs.storeLine 0).postlen ≠ 0 ∧
      (tMalloc r.answers.heap (paddedSize (c.hs.storeLine 0).request)).1 ≠ 0
  · obtain ⟨-, hfeed, hfirst, hempty, hpost, hlen, -⟩ := id hasks
    have hline := headerByte_line files c hfeed
    have hrange := (malloc_range ready (c.hs.storeLine 0).request).1
    obtain ⟨hs, hsome⟩ : ∃ hs, handleLine files r.answers (c.hs.storeLine 0) = some hs := ⟨_, if_pos hfirst⟩
    have hbody := handleLine_body hfirst hempty ⟨hpost, hlen⟩ hsome
    rw [hsome] at hline
    refine Or.inl ⟨_, if_pos hasks, ?_⟩
    rw [hline]
    exact ⟨opened, hbody, by omega⟩
  · exact Or.inr ⟨if_neg hasks, hrefused⟩

/-- A byte of the body. -/
theorem part_body (files : Nat → Nat) (expected : Nat) {c : Conn} {r : Received} (opened : c.phase = .opened)
    (hpd : c.hs.postdata ≠ 0) :
    bodyMalloc c r = [] ∧ (c.part files expected (.inl r)).phase = .opened ∧
      (c.part files expected (.inl r)).hs.postdata = c.hs.postdata := by
  have hpart : c.part files expected (.inl r) = bodyByte files expected r c := by
    simp only [Conn.part, recvByte, opened, if_neg hpd]
  rw [hpart]
  refine ⟨if_neg fun hasks => hpd hasks.1, ?_, (bodyByte_same files expected r c).1⟩
  unfold bodyByte
  dsimp only
  split
  · exact opened
  · exact opened

/-- The calls of an open connection are accounted for. -/
def Tracked.Accounted (t : Tracked) : Prop := t.conn.phase = .opened → OpenActs t.conn t.acts

/-- One part of an event: the accounts stay in order, and nothing is lost unless the connection dies with a buffer. -/
theorem Tracked.step_accounted (files : Nat → Nat) (expected : Nat) {t : Tracked} (h : t.Accounted)
    (opened : t.conn.phase = .opened) (e : Received ⊕ Event) (ready : HeapReady e) :
    (t.step files expected e).Accounted ∧
      (Clean (t.step files expected e).acts ↔ ¬ (Dies t.conn e ∧ t.holdsBuffer)) := by
  have hacts := h opened
  have hstep : t.step files expected e =
      { conn := t.conn.part files expected e, acts := t.acts ++ t.conn.acts files expected e } := by
    simp only [Tracked.step, opened]
  rw [hstep]
  cases e with
  | inr e =>
      obtain ⟨hsame, hgone⟩ := part_event files expected opened e
      constructor
      · intro hopen
        have hending : ending (t.conn.part files expected (.inr e)) = [] := ending_open hopen
        simp only [Conn.acts, hending, List.append_nil]
        rcases hacts with hone | ⟨ptr, htwo, hptr, hnonzero⟩
        · exact Or.inl hone
        · exact Or.inr ⟨ptr, htwo, hsame.trans hptr, hnonzero⟩
      · exact (hacts.ending hsame).trans (not_congr (and_congr_left' hgone))
  | inl r =>
      have hnever : ¬ (Dies t.conn (.inl r) ∧ t.holdsBuffer) := fun hdies => hdies.1
      by_cases hpd : t.conn.hs.postdata = 0
      · have hone : t.acts = [.mallocState] := by
          rcases hacts with hone | ⟨ptr, -, hptr, hnonzero⟩
          · exact hone
          · exact absurd (hptr.symm.trans hpd) hnonzero
        rcases part_header files expected opened hpd ready with
          ⟨ptr, hmalloc, hopen, hptr, hnonzero⟩ | ⟨hmalloc, hgone, hended⟩
        · have hending : ending (t.conn.part files expected (.inl r)) = [] := ending_open hopen
          have htwo : OpenActs (t.conn.part files expected (.inl r))
              (t.acts ++ t.conn.acts files expected (.inl r)) := by
            simp only [Conn.acts, hmalloc, hending, hone]
            exact Or.inr ⟨ptr, rfl, hptr, hnonzero⟩
          exact ⟨fun _ => htwo, iff_of_true htwo.clean hnever⟩
        · simp only [Conn.acts, hmalloc, List.nil_append]
          by_cases hopen : (t.conn.part files expected (.inl r)).phase = .opened
          · have hending : ending (t.conn.part files expected (.inl r)) = [] := ending_open hopen
            rw [hending, List.append_nil]
            exact ⟨fun _ => Or.inl hone, iff_of_true hacts.clean hnever⟩
          · refine ⟨fun h => absurd h hopen, iff_of_true ?_ hnever⟩
            exact (hacts.ending ((hended hopen).trans hpd.symm)).mpr fun h => hgone h.1
      · obtain ⟨hmalloc, hopen, hsame⟩ := part_body files expected (r := r) opened hpd
        have hending : ending (t.conn.part files expected (.inl r)) = [] := ending_open hopen
        simp only [Conn.acts, hmalloc, hending, List.append_nil]
        refine ⟨fun _ => ?_, iff_of_true hacts.clean hnever⟩
        rcases hacts with hone | ⟨ptr, htwo, hptr, hnonzero⟩
        · exact Or.inl hone
        · exact Or.inr ⟨ptr, htwo, hsame.trans hptr, hnonzero⟩

/-! ### The server -/

theorem Tracked.step_ended (files : Nat → Nat) (expected : Nat) {t : Tracked} (ended : t.conn.phase ≠ .opened)
    (e : Received ⊕ Event) : t.step files expected e = t := by
  unfold Tracked.step
  split
  · rename_i hopen
    exact absurd hopen ended
  · rfl

/-- All connections are accounted for. -/
def Server.Accounted (s : Server) : Prop := ∀ (i : Nat) (t : Tracked), s.conns[i]? = some t → t.Accounted

/-- No connection has lost anything. -/
def Server.Clean (s : Server) : Prop := ∀ (i : Nat) (t : Tracked), s.conns[i]? = some t → Http.Clean t.acts

/-- The event of a connection, and the others as they are. -/
theorem Server.step_on (files : Nat → Nat) (expected : Nat) {s : Server} (running : s.halted = false) {i : Nat}
    {t : Tracked} (h : s.conns[i]? = some t) (e : Received ⊕ Event) (j : Nat) :
    (s.step files expected (.on i e)).conns[j]? =
      if i = j then some ((t.over s.mem).step files expected e) else s.conns[j]? := by
  have hi : i < s.conns.length := (List.getElem?_eq_some_iff.mp h).1
  simp only [Server.step, running, Bool.false_eq_true, if_false, h, List.getElem?_set]
  by_cases hij : i = j
  · subst hij
    rw [if_pos rfl, if_pos hi, if_pos rfl]
  · rw [if_neg hij, if_neg hij]

/-- What a step does to the connections: nothing, a new one, or an event of one of them. -/
theorem Server.step_cases (files : Nat → Nat) (expected : Nat) (s : Server) (e : ServerEvent) :
    (s.step files expected e).conns = s.conns ∨
      (∃ lineBuf, e = .accept (some lineBuf) ∧
        (s.step files expected e).conns = s.conns ++ [⟨httpAccept s.mem lineBuf, [.mallocState]⟩]) ∨
      ∃ i part t, e = .on i part ∧ s.halted = false ∧ s.conns[i]? = some t := by
  by_cases hhalted : s.halted = true
  · left
    simp only [Server.step, hhalted, if_true]
  · rw [Bool.not_eq_true] at hhalted
    cases e with
    | accept lineBuf =>
        cases lineBuf with
        | none =>
            left
            simp [Server.step, hhalted]
        | some lineBuf =>
            right
            left
            exact ⟨lineBuf, rfl, by simp [Server.step, hhalted]⟩
    | on i part =>
        cases hi : s.conns[i]? with
        | none =>
            left
            simp [Server.step, hhalted, hi]
        | some t => exact Or.inr (Or.inr ⟨i, part, t, rfl, hhalted, hi⟩)
    | elsewhere mem =>
        left
        simp [Server.step, hhalted]

/-- A new connection. -/
theorem accept_accounted (mem : Mem) (lineBuf : Int → UInt8) :
    Tracked.Accounted ⟨httpAccept mem lineBuf, [.mallocState]⟩ := fun _ => Or.inl rfl

theorem Tracked.Accounted.clean {t : Tracked} (h : t.Accounted) (opened : t.conn.phase = .opened) :
    Http.Clean t.acts := (h opened).clean

theorem Tracked.over_step (files : Nat → Nat) (expected : Nat) {t : Tracked} (h : t.Accounted) (mem : Mem)
    (e : Received ⊕ Event) (ready : HeapReady e) : ((t.over mem).step files expected e).Accounted := by
  by_cases hopen : t.conn.phase = .opened
  · exact (Tracked.step_accounted files expected (t := t.over mem) h hopen e ready).1
  · rw [Tracked.step_ended files expected (t := t.over mem) hopen]
    exact h

/-- The connections after a new one. -/
theorem getElem?_concat_cases {l : List Tracked} {t t' : Tracked} {j : Nat} (h : (l ++ [t])[j]? = some t') :
    l[j]? = some t' ∨ t' = t := by
  rw [List.getElem?_append] at h
  split at h
  · exact Or.inl h
  · rename_i hj
    have hlast := List.mem_of_getElem? h
    exact Or.inr (List.mem_singleton.mp hlast)

theorem Server.step_accounted (files : Nat → Nat) (expected : Nat) {s : Server} (h : s.Accounted) (e : ServerEvent)
    (ready : e.HeapReady) : (s.step files expected e).Accounted := by
  intro j t' hj
  rcases s.step_cases files expected e with hsame | ⟨lineBuf, rfl, hnew⟩ | ⟨i, part, t, rfl, hrunning, hi⟩
  · exact h j t' (hsame ▸ hj)
  · rw [hnew] at hj
    rcases getElem?_concat_cases hj with hold | rfl
    · exact h j t' hold
    · exact accept_accounted s.mem lineBuf
  · rw [Server.step_on files expected hrunning hi] at hj
    split at hj
    · cases hj
      exact Tracked.over_step files expected (h i t hi) s.mem part ready
    · exact h j t' hj

/-- Nothing is lost while no connection dies with a buffer. -/
theorem Server.step_clean (files : Nat → Nat) (expected : Nat) {s : Server} (h : s.Accounted) (clean : s.Clean)
    (e : ServerEvent) (ready : e.HeapReady) (keeps : KeepsBuffers s e) : (s.step files expected e).Clean := by
  intro j t' hj
  rcases s.step_cases files expected e with hsame | ⟨lineBuf, rfl, hnew⟩ | ⟨i, part, t, rfl, hrunning, hi⟩
  · exact clean j t' (hsame ▸ hj)
  · rw [hnew] at hj
    rcases getElem?_concat_cases hj with hold | rfl
    · exact clean j t' hold
    · exact (accept_accounted s.mem lineBuf).clean rfl
  · rw [Server.step_on files expected hrunning hi] at hj
    split at hj
    · cases hj
      by_cases hopen : t.conn.phase = .opened
      · refine (Tracked.step_accounted files expected (t := t.over s.mem) (h i t hi) hopen part ready).2.mpr ?_
        exact fun hdies => keeps hrunning t hi hopen hdies.1 hdies.2
      · rw [Tracked.step_ended files expected (t := t.over s.mem) hopen]
        exact clean i t hi
    · exact clean j t' hj

/-- A connection that dies with a buffer has lost it. -/
theorem Server.step_loses (files : Nat → Nat) (expected : Nat) {s : Server} (h : s.Accounted) (e : ServerEvent)
    (ready : e.HeapReady) (keeps : ¬ KeepsBuffers s e) : ¬ (s.step files expected e).Clean := by
  cases e with
  | accept lineBuf => exact absurd trivial keeps
  | elsewhere mem => exact absurd trivial keeps
  | on i part =>
      simp only [KeepsBuffers, Classical.not_forall, not_not] at keeps
      obtain ⟨hrunning, t, hi, hopen, hdies, hholds⟩ := keeps
      intro hclean
      have hat := Server.step_on files expected hrunning hi part i
      rw [if_pos rfl] at hat
      have hstep := (Tracked.step_accounted files expected (t := t.over s.mem) (h i t hi) hopen part ready).2
      exact hstep.mp (hclean i _ hat) ⟨hdies, hholds⟩

/-- What is lost stays lost: an open connection has lost nothing, and the others do not change. -/
theorem Server.step_lost (files : Nat → Nat) (expected : Nat) {s : Server} (h : s.Accounted) (e : ServerEvent)
    (lost : ¬ s.Clean) : ¬ (s.step files expected e).Clean := by
  simp only [Server.Clean, Classical.not_forall] at lost
  obtain ⟨j, t, hj, hlost⟩ := lost
  intro hclean
  have hstays : (s.step files expected e).conns[j]? = some t ∨
      (s.step files expected e).conns[j]? = some (t.over s.mem) := by
    rcases s.step_cases files expected e with hsame | ⟨lineBuf, rfl, hnew⟩ | ⟨i, part, t', rfl, hrunning, hi⟩
    · exact Or.inl (hsame ▸ hj)
    · have hlt := (List.getElem?_eq_some_iff.mp hj).1
      rw [hnew, List.getElem?_append_left hlt]
      exact Or.inl hj
    · rw [Server.step_on files expected hrunning hi]
      by_cases hij : i = j
      · subst hij
        cases hi.symm.trans hj
        have hended : t.conn.phase ≠ .opened := fun hopen => hlost ((h i t hj).clean hopen)
        rw [if_pos rfl, Tracked.step_ended files expected (t := t.over s.mem) hended]
        exact Or.inr rfl
      · rw [if_neg hij]
        exact Or.inl hj
  rcases hstays with hsame | hover
  · exact hlost (hclean j t hsame)
  · exact hlost (hclean j (t.over s.mem) hover)

/-- For any connections and any order of their events: every buffer is freed before the state of its connection, and
    nothing is freed twice, exactly when no connection dies by `conn_err` while it has a buffer. -/
theorem uploads_released (files : Nat → Nat) (expected : Nat) (mem : Mem) (events : List ServerEvent)
    (ready : ∀ e ∈ events, e.HeapReady) :
    (∀ t ∈ (events.foldl (Server.step files expected) (.start mem)).conns, Released t.acts ∧ Once t.acts) ↔
      Along (Server.step files expected) KeepsBuffers (.start mem) events := by
  have hnone : ∀ (i : Nat) (t : Tracked), (Server.start mem).conns[i]? ≠ some t := fun i t h => by cases h
  have hiff := Along.iff_final (G := Server.Clean) (I := Server.Accounted)
    (fun s e he hs => Server.step_accounted files expected hs e he)
    (fun s e he hs hg hp => Server.step_clean files expected hs hg e he hp)
    (fun s e he hs _ hp => Server.step_loses files expected hs e he hp)
    (fun s e _ hs hg => Server.step_lost files expected hs e hg) ready
    (fun i t h => absurd h (hnone i t)) (fun i t h => absurd h (hnone i t))
  refine Iff.trans ?_ hiff
  constructor
  · exact fun hall i t hi => hall t (List.mem_of_getElem? hi)
  · intro hall t ht
    obtain ⟨i, hi⟩ := List.mem_iff_getElem?.mp ht
    exact hall i t hi

/-- A connection is accepted, announces an upload of two bytes, and ends with the given event. -/
def upload (theEnd : Event) : List ServerEvent :=
  .accept (some fun _ => 0) ::
    (arriving (freshAnswers 0 0) (postHeader [0x32])).map (fun r => .on 0 (.inl r)) ++ [.on 0 (.inr theEnd)]

/-- The calls at the end. -/
def uploadActs (theEnd : Event) : List (List HeapAct) :=
  ((upload theEnd).foldl (Server.step (fun _ => 0) 2) (.start fun _ => 0)).conns.map Tracked.acts

theorem upload_ready (theEnd : Event) : ∀ e ∈ upload theEnd, e.HeapReady := by
  intro e he
  rcases List.mem_append.mp he with he | he
  · rcases List.mem_cons.mp he with rfl | he
    · trivial
    · obtain ⟨r, hr, rfl⟩ := List.mem_map.mp he
      obtain ⟨b, -, rfl⟩ := List.mem_map.mp hr
      rfl
  · cases List.mem_singleton.mp he
    trivial

/-- An upload that the other side closes is released. -/
theorem uploads_released_close :
    (∀ t ∈ ((upload .remoteClose).foldl (Server.step (fun _ => 0) 2) (.start fun _ => 0)).conns,
      Released t.acts ∧ Once t.acts) ∧
    uploadActs .remoteClose = [[.mallocState, .mallocBody 0x2a04100, .freeBody 0x2a04100, .freeState]] := by
  refine ⟨(uploads_released (fun _ => 0) 2 (fun _ => 0) (upload .remoteClose) (upload_ready _)).mpr ?_, by decide +kernel⟩
  refine Along.of_forall (fun e he s => ?_) _
  rcases List.mem_append.mp he with he | he
  · rcases List.mem_cons.mp he with rfl | he
    · trivial
    · obtain ⟨r, hr, rfl⟩ := List.mem_map.mp he
      exact fun _ _ _ _ hdies => hdies.elim
  · cases List.mem_singleton.mp he
    exact fun _ _ _ _ hdies => hdies.elim

/-- An upload that is reset is not: the state is freed, and the buffer is lost. -/
theorem reset_upload_lost :
    ¬ ∀ (files : Nat → Nat) (expected : Nat) (mem : Mem) (events : List ServerEvent), (∀ e ∈ events, e.HeapReady) →
      ∀ t ∈ (events.foldl (Server.step files expected) (.start mem)).conns, Released t.acts ∧ Once t.acts := by
  intro hall
  have hacts : uploadActs .error = [[.mallocState, .mallocBody 0x2a04100, .freeState]] := by decide +kernel
  have hmem : [.mallocState, .mallocBody 0x2a04100, .freeState] ∈ uploadActs .error := by
    rw [hacts]
    exact List.mem_singleton_self _
  obtain ⟨t, ht, htacts⟩ := List.mem_map.mp hmem
  have hreleased := (hall (fun _ => 0) 2 (fun _ => 0) (upload .error) (upload_ready _) t ht).1
  have hfreed := hreleased [.mallocState, .mallocBody 0x2a04100] [] htacts 0x2a04100 (by simp)
  simp at hfreed

end Cromwell.Http
