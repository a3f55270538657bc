/-
Module: Cromwell.Http.Run
Layer: Proofs
Purpose: Whole runs of a connection: any data in any segmentation, any order of the callbacks, other code in
  between. In every run whose complete bodies are judged by their contents (`PostOk`), what is handed to
  `BootReflashAndReset` is the upload found in the body that was received.
Imports: Cromwell.Http.Upload, Cromwell.MemoryManager.Run
Trusted boundary: human-reviewed run relation (Event.Possible, Step)
Main exports: Step, FlashesUpload, ConnInv, flashes_only_uploads
-/
import Cromwell.Http.Upload
import Cromwell.MemoryManager.Run

namespace Cromwell.Http

open ByteMemory
open Cromwell.BootLibrary (memcpy memcpy_eq)
open Cromwell.MemoryManager (malloc memoryManagerStart)

/-! ### Runs -/

/-- Where the blocks of the heap lie. `malloc` answers `0x100` when it finds nothing. -/
theorem malloc_range {h : MemoryManager.Heap} (start : h.memoryManagerStartAddress = memoryManagerStart)
    (size : Nat) : 0x100 ≤ (malloc h size).1 ∧ (malloc h size).1 < 0x03A00000 := by
  rcases MemoryManager.malloc_cases start size with ⟨-, -, hm⟩ | ⟨c, -, hfit, -, hm⟩
  · rw [hm]
    exact ⟨Nat.le_refl _, show 0x100 < 0x03A00000 by decide⟩
  · obtain ⟨-, hc, -, -⟩ := MemoryManager.firstFit_eq_some.mp hfit
    rw [hm]
    simp only [memoryManagerStart]
    omega

/-- The received bytes of the body, as a function. -/
def Conn.bytes (c : Conn) : Nat → UInt8 := fun i => c.body.getD i 0

/-- What the world can do: the heap is the one of this system, fewer than `2^31` body bytes arrive, and other
    code does not write into the block of the body. -/
def Event.Possible (c : Conn) : Event → Prop
  | .recv chain =>
      (∀ r ∈ chain.flatten, r.answers.heap.memoryManagerStartAddress = memoryManagerStart) ∧
        c.body.length + chain.flatten.length < 2 ^ 31
  | .elsewhere mem =>
      c.hs.postdata ≠ 0 → ∀ i < c.hs.postlen.toNat, mem (c.hs.postdata + i) = c.mem (c.hs.postdata + i)
  | _ => True

/-- A condition on each byte and the state that it meets, along the bytes of a call. -/
def BytesMeet (files : Nat → Nat) (expected : Nat) (ok : Conn → Received → Prop) :
    Conn → List Received → Prop
  | _, [] => True
  | c, r :: rest => ok c r ∧ BytesMeet files expected ok (recvByte files expected c r) rest

/-- The same for an event. -/
def Event.Meets (files : Nat → Nat) (expected : Nat) (ok : Conn → Received → Prop) (c : Conn) :
    Event → Prop
  | .recv chain => BytesMeet files expected ok c chain.flatten
  | _ => True

/-- Steps of an open connection whose received bytes all meet `ok`. -/
inductive Step (files : Nat → Nat) (expected : Nat) (ok : Conn → Received → Prop) : Conn → Conn → Prop where
  | event (c : Conn) (e : Event) (opened : c.phase = .opened) (possible : e.Possible c)
      (meets : e.Meets files expected ok c) : Step files expected ok c (e.apply files expected c)

/-- A byte that completes a body completes one that is judged by its contents. -/
def CompletesOk (expected : Nat) (c : Conn) (r : Received) : Prop :=
  c.hs.postdata ≠ 0 → (c.hs.postpos + 1 : Int) = c.hs.postlen →
    PostOk expected (c.hs.postpos + 1)
      (view (c.mem.store (u32 (c.hs.postdata + c.hs.postpos)) r.byte) c.hs.postdata)
      c.hs.postdata r.answers.start r.answers.theEnd

/-- Only uploads are flashed: a call of `BootReflashAndReset` is for an image of the expected size at offset
    0 that is the upload of the received body, and `bios_start` is not NULL only when it points at one. -/
def FlashesUpload (expected : Nat) (c : Conn) : Prop :=
  (∀ image dwStartOffset dwLength, c.phase = .reflash image dwStartOffset dwLength →
    dwStartOffset = 0 ∧ dwLength = expected ∧
      ∃ start, Upload c.bytes c.hs.postlen.toNat expected start ∧
        ∀ i < expected, image i = c.bytes (start + i)) ∧
  (c.hs.biosStart ≠ 0 → c.hs.postlen ≤ c.body.length ∧
    ∃ start, Upload c.bytes c.hs.postlen.toNat expected start ∧
      c.hs.biosStart = c.hs.postdata + start ∧ c.hs.biosLen = expected)

/-! ### The invariant -/

/-- An accepted upload: complete, pointed at, and still in memory. -/
def Held (expected : Nat) (c : Conn) : Prop :=
  c.hs.postlen ≤ c.body.length ∧
    ∃ start, Upload c.bytes c.hs.postlen.toNat expected start ∧
      c.hs.biosStart = c.hs.postdata + start ∧ c.hs.biosLen = expected ∧
      ¬ (c.hs.postdata + start < 0x100000 ∧ 0x100000 < c.hs.postdata + start + expected) ∧
      ∀ i, start ≤ i → i < c.hs.postlen.toNat → c.mem (c.hs.postdata + i) = c.bytes i

/-- The invariant of an open connection. -/
structure ConnInv (expected : Nat) (c : Conn) : Prop where
  header : c.hs.postdata = 0 → c.hs.biosStart = 0 ∧ c.body = []
  range : c.hs.postdata ≠ 0 → 0x100 ≤ c.hs.postdata ∧ c.hs.postdata < 0x03A00000
  count : c.body.length = c.hs.postpos
  postlen : c.hs.postlen < 2 ^ 31
  stored : c.hs.postdata ≠ 0 → (c.hs.postpos : Int) < c.hs.postlen →
    ∀ i < c.hs.postpos, c.mem (c.hs.postdata + i) = c.bytes i
  held : c.hs.biosStart ≠ 0 → Held expected c

/-- The invariant of a connection in any phase. -/
structure RunInv (expected : Nat) (c : Conn) : Prop where
  opened : c.phase = .opened → ConnInv expected c
  flashes : FlashesUpload expected c

theorem ConnInv.flashes {expected : Nat} {c : Conn} (inv : ConnInv expected c)
    (opened : ∀ image dwStartOffset dwLength, c.phase ≠ .reflash image dwStartOffset dwLength) :
    FlashesUpload expected c := by
  refine ⟨fun image off len h => absurd h (opened image off len), fun hbios => ?_⟩
  obtain ⟨hlen, start, hup, hstart, hbl, -, -⟩ := inv.held hbios
  exact ⟨hlen, start, hup, hstart, hbl⟩

/-- An open connection that meets the invariant. -/
theorem ConnInv.run {expected : Nat} {c : Conn} (inv : ConnInv expected c) (opened : c.phase = .opened) :
    RunInv expected c := by
  refine ⟨fun _ => inv, inv.flashes fun image off len h => ?_⟩
  rw [opened] at h
  cases h

/-- Closing a connection flashes the accepted upload or nothing. -/
theorem closeConn_inv {expected : Nat} {c : Conn} (inv : ConnInv expected c)
    (hexp : expected < 2 ^ 31) : RunInv expected (closeConn c) := by
  unfold closeConn
  by_cases hbios : c.hs.biosStart ≠ 0
  · rw [if_pos hbios]
    obtain ⟨hlen, start, hup, hstart, hbl, hapart, hmem⟩ := inv.held hbios
    have hsize : (c.hs.biosLen % 2 ^ 32).toNat = expected := by omega
    obtain ⟨blen, j, hline, hblank, hj, hfits, -⟩ := id hup
    have hcopy : memcpy c.mem 0x100000 c.hs.biosStart expected =
        c.mem.copy 0x100000 c.hs.biosStart expected := memcpy_eq c.mem (by omega)
    refine ⟨fun h => absurd h (by simp), fun image off len h => ?_, fun _ => ⟨hlen, start, hup, hstart, hbl⟩⟩
    simp only [Phase.reflash.injEq] at h
    obtain ⟨rfl, rfl, rfl⟩ := h
    refine ⟨rfl, hsize, start, hup, fun i hi => ?_⟩
    simp only [hsize, hcopy]
    rw [Mem.copy_of_mem hi, hstart, Nat.add_assoc]
    exact hmem (start + i) (by omega) (by omega)
  · rw [if_neg hbios]
    refine ⟨fun h => absurd h (by simp), fun image off len h => absurd h (by simp), fun h => ?_⟩
    exact absurd h hbios

/-- `send_data` moves in the file only. -/
theorem sendData_same (ans : Answers) (hs : HttpState) :
    SamePost hs (sendData ans hs) ∧ (sendData ans hs).biosStart = hs.biosStart ∧
      (sendData ans hs).biosLen = hs.biosLen := by
  simp only [sendData]
  split
  · exact ⟨⟨rfl, rfl, rfl⟩, rfl, rfl⟩
  · exact ⟨⟨rfl, rfl, rfl⟩, rfl, rfl⟩

/-- The invariant looks at a few fields of the connection only. -/
theorem ConnInv.transfer {expected : Nat} {c c' : Conn} (inv : ConnInv expected c)
    (same : SamePost c.hs c'.hs) (start : c'.hs.biosStart = c.hs.biosStart)
    (len : c'.hs.biosLen = c.hs.biosLen) (body : c'.body = c.body)
    (mem : c.hs.postdata ≠ 0 → ∀ i < c.hs.postlen.toNat,
      c'.mem (c.hs.postdata + i) = c.mem (c.hs.postdata + i)) : ConnInv expected c' := by
  have hbytes : c'.bytes = c.bytes := by
    funext i
    simp only [Conn.bytes, body]
  refine ⟨?_, ?_, ?_, ?_, ?_, ?_⟩
  · rw [same.postdata, start, body]
    exact inv.header
  · rw [same.postdata]
    exact inv.range
  · rw [body, same.postpos]
    exact inv.count
  · rw [same.postlen]
    exact inv.postlen
  · rw [same.postdata, same.postpos, same.postlen, hbytes]
    intro hpd hlt i hi
    rw [mem hpd i (by omega)]
    exact inv.stored hpd hlt i hi
  · rw [start]
    intro hbios
    have hpd : c.hs.postdata ≠ 0 := fun h => hbios (inv.header h).1
    obtain ⟨hlen, st, hup, hstart, hbl, hapart, hmem⟩ := inv.held hbios
    unfold Held
    rw [same.postdata, same.postlen, start, len, body, hbytes]
    refine ⟨hlen, st, hup, hstart, hbl, hapart, fun i hlo hi => ?_⟩
    rw [mem hpd i hi]
    exact hmem i hlo hi

/-! ### Received bytes -/

theorem bmod_int_lt (x : Int) : x.bmod (2 ^ 32) < 2 ^ 31 := by
  have h : x.bmod (2 ^ 32) < ((2 ^ 32 : Nat) + 1) / 2 := Int.bmod_lt (by decide)
  omega

/-- An empty line gives no length. -/
theorem contentLength_empty {hs : HttpState} (h : hs.lineBuf 0 = 0) : contentLength hs = hs := by
  refine if_neg fun hline => ?_
  have hfirst := List.all_eq_true.mp hline 0 (by decide)
  rw [Nat.cast_zero, h] at hfirst
  exact absurd hfirst (by decide)

/-- What a header line can do to the fields that matter for the body. -/
theorem handleLine_spec {files : Nat → Nat} {ans : Answers} {hs hs' : HttpState}
    (h : handleLine files ans hs = some hs') (bound : hs.postlen < 2 ^ 31) :
    hs'.biosStart = hs.biosStart ∧ hs'.postlen < 2 ^ 31 ∧
      (hs'.postdata = hs.postdata ∧ hs'.postpos = hs.postpos ∨
        hs'.postdata = (malloc ans.heap (hs.postlen % 2 ^ 32).toNat).1 ∧ hs'.postpos = 0 ∧
          hs'.postlen = hs.postlen) := by
  have hcontent : ∀ hs : HttpState, hs.postlen < 2 ^ 31 → (contentLength hs).biosStart = hs.biosStart ∧
      (contentLength hs).postlen < 2 ^ 31 ∧ (contentLength hs).postdata = hs.postdata ∧
      (contentLength hs).postpos = hs.postpos := by
    intro hs hb
    unfold contentLength
    split
    · refine ⟨rfl, ?_, rfl, rfl⟩
      dsimp only
      exact bmod_int_lt _
    · exact ⟨rfl, hb, rfl, rfl⟩
  unfold handleLine at h
  split at h
  · cases h
    by_cases hempty : hs.lineBuf 0 = 0
    · rw [if_pos hempty]
      unfold headerEnd
      by_cases hpost : hs.ispost = true ∧ hs.postlen ≠ 0
      · rw [if_pos hpost, contentLength_empty (by exact hempty)]
        exact ⟨rfl, bound, Or.inr ⟨rfl, rfl, rfl⟩⟩
      · rw [if_neg hpost]
        have hsend := sendData_same ans hs
        have hc := hcontent { sendData ans hs with gotfirst := false } (by
          show (sendData ans hs).postlen < 2 ^ 31
          rw [hsend.1.postlen]
          exact bound)
        refine ⟨hc.1.trans hsend.2.1, hc.2.1, Or.inl ⟨hc.2.2.1.trans hsend.1.postdata, ?_⟩⟩
        exact hc.2.2.2.trans hsend.1.postpos
    · rw [if_neg hempty]
      have hc := hcontent hs bound
      exact ⟨hc.1, hc.2.1, Or.inl hc.2.2⟩
  · unfold requestLine at h
    split at h
    · cases h
      exact ⟨rfl, bound, Or.inl ⟨rfl, rfl⟩⟩
    · split at h
      · cases h
        exact ⟨rfl, bound, Or.inl ⟨rfl, rfl⟩⟩
      · exact absurd h (by simp)

theorem headerByte_inv {files : Nat → Nat} {expected : Nat} {c : Conn} {r : Received}
    (inv : ConnInv expected c) (opened : c.phase = .opened) (hpd : c.hs.postdata = 0)
    (heap : r.answers.heap.memoryManagerStartAddress = memoryManagerStart)
    (hexp : expected < 2 ^ 31) : RunInv expected (headerByte files r c) := by
  have hnoBlock : c.hs.postdata ≠ 0 → ∀ i < c.hs.postlen.toNat,
      c.mem (c.hs.postdata + i) = c.mem (c.hs.postdata + i) := fun _ _ _ => rfl
  obtain ⟨hbios, hbody⟩ := inv.header hpd
  unfold headerByte
  split
  · exact inv.run opened
  · split
    · have hline : ConnInv expected { c with hs := c.hs.storeLine 0 } :=
        inv.transfer ⟨rfl, rfl, rfl⟩ rfl rfl rfl hnoBlock
      cases hl : handleLine files r.answers (c.hs.storeLine 0) with
      | none => exact closeConn_inv hline hexp
      | some hs' =>
          obtain ⟨hb, hlen, hcase⟩ := handleLine_spec hl inv.postlen
          have hb0 : hs'.biosStart = 0 := hb.trans hbios
          refine ConnInv.run ?_ opened
          rcases hcase with ⟨hpd', hpos'⟩ | ⟨hpd', hpos', -⟩
          · have hpd0 : hs'.postdata = 0 := hpd'.trans hpd
            exact ⟨fun _ => ⟨hb0, hbody⟩, fun h => absurd hpd0 h, inv.count.trans hpos'.symm, hlen,
              fun h => absurd hpd0 h, fun h => absurd hb0 h⟩
          · -- a buffer for the body: nothing is in it yet
            have hcount : c.body.length = hs'.postpos := by rw [hbody, hpos']; rfl
            refine ⟨fun _ => ⟨hb0, hbody⟩, fun _ => ?_, hcount, hlen, fun _ _ i hi => ?_,
              fun h => absurd hb0 h⟩
            · show 0x100 ≤ hs'.postdata ∧ hs'.postdata < 0x03A00000
              rw [hpd']
              exact malloc_range heap _
            · have hi' : i < hs'.postpos := hi
              omega
    · split
      · refine ConnInv.run ?_ opened
        exact inv.transfer ⟨rfl, rfl, rfl⟩ rfl rfl rfl hnoBlock
      · exact inv.run opened

theorem bytes_append_lt {body : List UInt8} {b : UInt8} {i : Nat} (hi : i < body.length) :
    (body ++ [b]).getD i 0 = body.getD i 0 := by
  rw [List.getD_eq_getElem?_getD, List.getD_eq_getElem?_getD, List.getElem?_append_left hi]

theorem bytes_append_last {body : List UInt8} {b : UInt8} : (body ++ [b]).getD body.length 0 = b := by
  simp [List.getD_eq_getElem?_getD]

/-- Storing the next byte of the body extends what is stored by it. -/
theorem store_next {c : Conn} {b : UInt8} (room : c.hs.postdata + c.hs.postpos < 2 ^ 32)
    (count : c.body.length = c.hs.postpos)
    (stored : ∀ i < c.hs.postpos, c.mem (c.hs.postdata + i) = c.bytes i) :
    ∀ i < c.hs.postpos + 1, c.mem.store (u32 (c.hs.postdata + c.hs.postpos)) b (c.hs.postdata + i) =
      (c.body ++ [b]).getD i 0 := by
  intro i hi
  rw [u32, Nat.mod_eq_of_lt room]
  rcases Nat.lt_succ_iff_lt_or_eq.mp hi with h | rfl
  · rw [Mem.store_of_ne (by omega), bytes_append_lt (by omega)]
    exact stored i h
  · rw [Mem.store_self, ← count, bytes_append_last]

/-- A byte that does not complete the body. -/
theorem bodyByte_more_inv {expected : Nat} {c : Conn} {r : Received} (inv : ConnInv expected c)
    (hpd : c.hs.postdata ≠ 0) (bound : c.hs.postpos + 1 < 2 ^ 31) :
    ConnInv expected
      { c with
        hs := { c.hs with postpos := c.hs.postpos + 1 }
        mem := c.mem.store (u32 (c.hs.postdata + c.hs.postpos)) r.byte
        body := c.body ++ [r.byte] } := by
  obtain ⟨hlo, hhi⟩ := inv.range hpd
  have haddr : u32 (c.hs.postdata + c.hs.postpos) = c.hs.postdata + c.hs.postpos :=
    Nat.mod_eq_of_lt (by omega)
  have hcount := inv.count
  refine ⟨fun h => absurd h hpd, fun _ => inv.range hpd, ?_, inv.postlen, fun _ hlt => ?_, fun hbios => ?_⟩
  · simp [hcount]
  · have hlt' : (c.hs.postpos : Int) + 1 < c.hs.postlen := by simpa using hlt
    exact store_next (by omega) hcount (inv.stored hpd (by omega))
  · obtain ⟨hlen, start, hup, hstart, hbl, hapart, hmem⟩ := inv.held hbios
    have hagree : ∀ i < c.hs.postlen.toNat, c.bytes i = (c.body ++ [r.byte]).getD i 0 :=
      fun i hi => (bytes_append_lt (by omega)).symm
    refine ⟨?_, start, hup.congr hagree, hstart, hbl, hapart, fun i hi hin => ?_⟩
    · simp only [List.length_append, List.length_singleton, Nat.cast_add, Nat.cast_one]
      omega
    · have hin' : i < c.hs.postlen.toNat := hin
      show c.mem.store (u32 (c.hs.postdata + c.hs.postpos)) r.byte (c.hs.postdata + i) =
        (c.body ++ [r.byte]).getD i 0
      rw [haddr, Mem.store_of_ne (by omega), ← hagree i hin]
      exact hmem i hi hin

/-- The byte that completes the body. -/
theorem bodyByte_last_inv {files : Nat → Nat} {expected : Nat} {c : Conn} {r : Received}
    (inv : ConnInv expected c) (hpd : c.hs.postdata ≠ 0) (bound : c.hs.postpos + 1 < 2 ^ 31)
    (last : (c.hs.postpos + 1 : Int) = c.hs.postlen) (ok : CompletesOk expected c r) :
    let mem := c.mem.store (u32 (c.hs.postdata + c.hs.postpos)) r.byte
    let post := handlePost files expected r.answers { c.hs with postpos := c.hs.postpos + 1 } mem
    ConnInv expected
      { c with
        hs := { sendData r.answers post.2.1 with gotfirst := false }
        mem := post.2.2
        body := c.body ++ [r.byte] } := by
  intro mem post
  obtain ⟨hlo, hhi⟩ := inv.range hpd
  have hcount := inv.count
  have hclean : c.hs.biosStart = 0 := by
    by_contra hbios
    have := (inv.held hbios).1
    omega
  have hstored : ∀ i < c.hs.postpos + 1, mem (c.hs.postdata + i) = (c.body ++ [r.byte]).getD i 0 :=
    store_next (by omega) hcount (inv.stored hpd (by omega))
  have hview : ∀ i < c.hs.postpos + 1, view mem c.hs.postdata i = (c.body ++ [r.byte]).getD i 0 := by
    intro i hi
    rw [view, u32, Nat.mod_eq_of_lt (by omega)]
    exact hstored i hi
  have hpok := ok hpd last
  have hlen : c.hs.postlen = ((c.hs.postpos + 1 : Nat) : Int) := by
    rw [← last]
    norm_num
  obtain ⟨hsame, hacc⟩ := handlePost_spec files r.answers
    { c.hs with postpos := c.hs.postpos + 1 } mem hlen
    (show 0 < c.hs.postdata by omega) (show c.hs.postdata + (c.hs.postpos + 1) < 2 ^ 32 by omega)
    bound hclean hpok
  have hsend := sendData_same r.answers post.2.1
  have hpdEq : (sendData r.answers post.2.1).postdata = c.hs.postdata :=
    hsend.1.postdata.trans hsame.postdata
  have hlenEq : (sendData r.answers post.2.1).postlen = c.hs.postlen := hsend.1.postlen.trans hsame.postlen
  have hposEq : (sendData r.answers post.2.1).postpos = c.hs.postpos + 1 :=
    hsend.1.postpos.trans hsame.postpos
  have htoNat : c.hs.postlen.toNat = c.hs.postpos + 1 := by omega
  refine ⟨fun h => absurd (hpdEq.symm.trans h) hpd, fun _ => ?_, ?_, ?_, fun _ hlt => ?_, fun hbios => ?_⟩
  · show 0x100 ≤ (sendData r.answers post.2.1).postdata ∧ (sendData r.answers post.2.1).postdata < 0x03A00000
    rw [hpdEq]
    exact ⟨hlo, hhi⟩
  · show (c.body ++ [r.byte]).length = (sendData r.answers post.2.1).postpos
    rw [hposEq, List.length_append, hcount]
    rfl
  · show (sendData r.answers post.2.1).postlen < 2 ^ 31
    rw [hlenEq]
    exact inv.postlen
  · -- the body is complete
    have hlt' : ((sendData r.answers post.2.1).postpos : Int) < (sendData r.answers post.2.1).postlen := hlt
    rw [hposEq, hlenEq] at hlt'
    omega
  · rcases hacc with hzero | ⟨start, hup, hstart, hbl, hmem⟩
    · exact absurd (hsend.2.1.trans hzero) hbios
    · unfold Held
      simp only [Conn.bytes, hpdEq, hlenEq, hsend.2.1, hsend.2.2, htoNat]
      refine ⟨?_, start, hup.congr hview, ?_, hbl, hpok.apart start hup, fun i hi hin => ?_⟩
      · rw [List.length_append, hcount, hlen]
        simp
      · rw [hstart, hsame.postdata]
      · have hmemi := hmem i hi hin
        rw [hsame.postdata, hview i hin, view, u32, Nat.mod_eq_of_lt (by
          show c.hs.postdata + i < 2 ^ 32
          omega)] at hmemi
        exact hmemi

/-- One byte. -/
theorem recvByte_inv {files : Nat → Nat} {expected : Nat} {c : Conn} {r : Received}
    (hexp : expected < 2 ^ 31) (inv : RunInv expected c)
    (heap : r.answers.heap.memoryManagerStartAddress = memoryManagerStart)
    (bound : c.body.length + 1 < 2 ^ 31) (ok : CompletesOk expected c r) :
    RunInv expected (recvByte files expected c r) := by
  unfold recvByte
  cases hphase : c.phase with
  | opened =>
      have hinv := inv.opened hphase
      rw [hinv.count] at bound
      by_cases hpd : c.hs.postdata = 0
      · simp only [if_pos hpd]
        exact headerByte_inv hinv hphase hpd heap hexp
      · simp only [if_neg hpd, bodyByte]
        by_cases hlast : (c.hs.postpos + 1 : Int) = c.hs.postlen
        · rw [if_pos (by simpa using hlast)]
          exact (bodyByte_last_inv hinv hpd bound hlast ok).run hphase
        · rw [if_neg (by simpa using hlast)]
          exact (bodyByte_more_inv hinv hpd bound).run hphase
  | closed => exact inv
  | gone => exact inv
  | reflash image off len => exact inv

theorem closeConn_body (c : Conn) : (closeConn c).body = c.body := by
  unfold closeConn
  split
  · rfl
  · rfl

/-- A byte makes the body longer by one at most. -/
theorem recvByte_body (files : Nat → Nat) (expected : Nat) (c : Conn) (r : Received) :
    (recvByte files expected c r).body.length ≤ c.body.length + 1 := by
  have hheader : (headerByte files r c).body = c.body := by
    unfold headerByte
    split
    · rfl
    · split
      · split
        · exact closeConn_body _
        · rfl
      · split
        · rfl
        · rfl
  have hbody : (bodyByte files expected r c).body = c.body ++ [r.byte] := by
    simp only [bodyByte]
    split
    · rfl
    · rfl
  unfold recvByte
  split
  · split
    · rw [hheader]
      omega
    · rw [hbody, List.length_append, List.length_singleton]
  · omega

/-- All bytes of a call, whatever the segmentation. -/
theorem bytes_inv {files : Nat → Nat} {expected : Nat} (hexp : expected < 2 ^ 31) :
    ∀ (rs : List Received) (c : Conn), RunInv expected c →
      (∀ r ∈ rs, r.answers.heap.memoryManagerStartAddress = memoryManagerStart) →
      c.body.length + rs.length < 2 ^ 31 → BytesMeet files expected (CompletesOk expected) c rs →
      RunInv expected (rs.foldl (recvByte files expected) c)
  | [], c, inv, _, _, _ => inv
  | r :: rest, c, inv, heap, bound, ⟨ok, oks⟩ => by
      have hlen : c.body.length + (rest.length + 1) < 2 ^ 31 := bound
      have hstep : RunInv expected (recvByte files expected c r) :=
        recvByte_inv hexp inv (heap r List.mem_cons_self) (by omega) ok
      have hgrow := recvByte_body files expected c r
      exact bytes_inv hexp rest _ hstep (fun r hr => heap r (List.mem_cons_of_mem _ hr)) (by omega) oks

/-- One event. -/
theorem step_inv {files : Nat → Nat} {expected : Nat} {c c' : Conn} (hexp : expected < 2 ^ 31)
    (step : Step files expected (CompletesOk expected) c c') (inv : RunInv expected c) :
    RunInv expected c' := by
  obtain ⟨e, opened, possible, meets⟩ := step
  have hinv := inv.opened opened
  have hsame : c.hs.postdata ≠ 0 → ∀ i < c.hs.postlen.toNat,
      c.mem (c.hs.postdata + i) = c.mem (c.hs.postdata + i) := fun _ _ _ => rfl
  cases e with
  | recv chain =>
      have hfold : httpRecv files expected c chain = chain.flatten.foldl (recvByte files expected) c := by
        rw [httpRecv, List.foldl_flatten]
      simp only [Event.apply, hfold]
      exact bytes_inv hexp chain.flatten c inv possible.1 possible.2 meets
  | remoteClose => exact closeConn_inv hinv hexp
  | sent ans =>
      simp only [Event.apply, httpSent]
      have hretries : ConnInv expected { c with hs := { c.hs with retries := 0 } } :=
        hinv.transfer ⟨rfl, rfl, rfl⟩ rfl rfl rfl hsame
      split
      · have hsend := sendData_same ans { c.hs with retries := 0 }
        refine ConnInv.run ?_ opened
        exact hretries.transfer hsend.1 hsend.2.1 hsend.2.2 rfl hsame
      · exact closeConn_inv hretries hexp
  | poll ans =>
      simp only [Event.apply, httpPoll]
      have hretries : ConnInv expected { c with hs := { c.hs with retries := c.hs.retries + 1 } } :=
        hinv.transfer ⟨rfl, rfl, rfl⟩ rfl rfl rfl hsame
      split
      · refine ⟨fun h => absurd h (by simp), ?_⟩
        refine ⟨fun image off len h => absurd h (by simp), (hretries.run opened).flashes.2⟩
      · have hsend := sendData_same ans { c.hs with retries := c.hs.retries + 1 }
        refine ConnInv.run ?_ opened
        exact hretries.transfer hsend.1 hsend.2.1 hsend.2.2 rfl hsame
  | error =>
      refine ⟨fun h => absurd h (by simp [Event.apply]), ?_⟩
      exact ⟨fun image off len h => absurd h (by simp [Event.apply]), inv.flashes.2⟩
  | elsewhere mem =>
      refine ConnInv.run ?_ opened
      exact hinv.transfer ⟨rfl, rfl, rfl⟩ rfl rfl rfl possible

theorem httpAccept_inv (expected : Nat) (mem : Mem) (lineBuf : Int → UInt8) :
    ConnInv expected (httpAccept mem lineBuf) where
  header := fun _ => ⟨rfl, rfl⟩
  range := fun h => absurd rfl h
  count := rfl
  postlen := by
    show (0 : Int) < 2 ^ 31
    decide
  stored := fun h => absurd rfl h
  held := fun h => absurd rfl h

/-- In every run from an accepted connection in which every complete body is judged by its contents, only
    uploads are flashed. -/
theorem flashes_only_uploads (files : Nat → Nat) (expected : Nat) (hexp : expected < 2 ^ 31) (mem : Mem)
    (lineBuf : Int → UInt8) (c : Conn)
    (run : Relation.ReflTransGen (Step files expected (CompletesOk expected)) (httpAccept mem lineBuf) c) :
    FlashesUpload expected c := by
  have hinv : RunInv expected c := by
    induction run with
    | refl => exact (httpAccept_inv expected mem lineBuf).run rfl
    | tail _ step ih => exact step_inv hexp step ih
  exact hinv.flashes

/-- An environment over a fresh heap, with given values in the uninitialised locals. -/
def freshAnswers (start theEnd : Nat) : Answers where
  heap := MemoryManager.memoryManagementInitialization (fun _ => 0) memoryManagerStart 0
  start := start
  theEnd := theEnd
  sndbuf := 0
  tcpWrite := fun _ => .ok

/-- `POST /`, `Content-Length: <digits>` and an empty line. -/
def postHeader (digits : List UInt8) : List UInt8 :=
  postText ++ [0x2f, 0x0a] ++ contentLengthText ++ [0x20] ++ digits ++ [0x0a, 0x0a]

/-- Bytes that all arrive in the same environment. -/
def arriving (ans : Answers) (bytes : List UInt8) : List Received := bytes.map fun b => ⟨b, ans⟩

/-- A connection over a zeroed memory. -/
def freshConn : Conn := httpAccept (fun _ => 0) fun _ => 0

/-- The connection after one call of `http_recv` with everything in one `pbuf`. -/
def afterPost (expected : Nat) (ans : Answers) (bytes : List UInt8) : Conn :=
  Event.apply (fun _ => 0) expected freshConn (.recv [arriving ans bytes])

/-- `a`, a line feed: a body without a blank line. -/
def noBlankPost : List UInt8 := postHeader [0x32] ++ [0x61, 0x0a]

theorem bytesMeet_true (files : Nat → Nat) (expected : Nat) : ∀ (rs : List Received) (c : Conn),
    BytesMeet files expected (fun _ _ => True) c rs
  | [], _ => trivial
  | _ :: rest, _ => ⟨trivial, bytesMeet_true files expected rest _⟩

theorem arriving_possible (ans : Answers) (bytes : List UInt8)
    (heap : ans.heap.memoryManagerStartAddress = memoryManagerStart) (short : bytes.length < 2 ^ 31) :
    Event.Possible freshConn (.recv [arriving ans bytes]) := by
  refine ⟨fun r hr => ?_, ?_⟩
  · simp only [arriving, List.flatten_cons, List.flatten_nil, List.append_nil, List.mem_map] at hr
    obtain ⟨b, -, rfl⟩ := hr
    exact heap
  · simpa [arriving, freshConn, httpAccept] using short

instance (phase : Phase) : Decidable (phase = .opened) :=
  match phase with
  | .opened => isTrue rfl
  | .closed => isFalse Phase.noConfusion
  | .gone => isFalse Phase.noConfusion
  | .reflash _ _ _ => isFalse Phase.noConfusion

/-- With `0x200000` and `0x240002` in the two uninitialised locals, a body of two bytes has 256 KB flashed
    that nobody sent. -/
theorem uninitialised_image_flashed :
    ∃ c image, Relation.ReflTransGen (Step (fun _ => 0) 0x40000 fun _ _ => True)
        (httpAccept (fun _ => 0) fun _ => 0) c ∧
      c.phase = .reflash image 0 0x40000 ∧ c.body = [0x61, 0x0a] ∧ ¬ FlashesUpload 0x40000 c := by
  have hopen : (afterPost 0x40000 (freshAnswers 0x200000 0x240002) noBlankPost).phase = .opened := by decide +kernel
  have hbios : (afterPost 0x40000 (freshAnswers 0x200000 0x240002) noBlankPost).hs.biosStart = 0x200000 := by
    decide +kernel
  have hsize : (afterPost 0x40000 (freshAnswers 0x200000 0x240002) noBlankPost).hs.biosLen = 0x40000 := by
    decide +kernel
  have hlen : (afterPost 0x40000 (freshAnswers 0x200000 0x240002) noBlankPost).hs.postlen = 2 := by
    decide +kernel
  have hbody : (afterPost 0x40000 (freshAnswers 0x200000 0x240002) noBlankPost).body = [0x61, 0x0a] := by
    decide +kernel
  have hstep : Step (fun _ => 0) 0x40000 (fun _ _ => True) freshConn
      (afterPost 0x40000 (freshAnswers 0x200000 0x240002) noBlankPost) :=
    .event freshConn _ rfl (arriving_possible _ _ rfl (by decide)) (bytesMeet_true _ _ _ _)
  generalize afterPost 0x40000 (freshAnswers 0x200000 0x240002) noBlankPost = c at *
  have hclose : closeConn c = { c with
      mem := memcpy c.mem 0x100000 0x200000 0x40000
      phase := .reflash (fun i => memcpy c.mem 0x100000 0x200000 0x40000 (0x100000 + i)) 0 0x40000 } := by
    have hnat : (c.hs.biosLen % 2 ^ 32).toNat = 0x40000 := by rw [hsize]; rfl
    simp only [closeConn, hbios, hnat, ne_eq, OfNat.ofNat_ne_zero, not_false_eq_true, if_true]
  refine ⟨closeConn c, _, (Relation.ReflTransGen.single hstep).tail
    (.event c .remoteClose hopen trivial trivial), congrArg Conn.phase hclose, ?_, fun flashes => ?_⟩
  · rw [hclose]
    exact hbody
  · obtain ⟨-, -, start, ⟨blen, j, -, -, -, hfits, -⟩, -⟩ := flashes.1 _ _ _ (congrArg Conn.phase hclose)
    rw [hclose] at hfits
    simp only [hlen] at hfits
    omega

/-- A boundary `b`, an empty part header, `XY`, and the boundary again but for its last byte. -/
def smallPost : List UInt8 :=
  postHeader [0x31, 0x30] ++ [0x62, 0x0d, 0x0a, 0x0d, 0x0a, 0x58, 0x59, 0x0d, 0x0a]

/-- No byte of a list completes a body. -/
def noneCompletes (files : Nat → Nat) (expected : Nat) : Conn → List Received → Bool
  | _, [] => true
  | c, r :: rest =>
      (c.hs.postdata == 0 || (c.hs.postpos + 1 : Int) != c.hs.postlen) &&
        noneCompletes files expected (recvByte files expected c r) rest

theorem bytesMeet_append_last {files : Nat → Nat} {expected : Nat} (last : Received) :
    ∀ (rs : List Received) (c : Conn), noneCompletes files expected c rs = true →
      CompletesOk expected (rs.foldl (recvByte files expected) c) last →
      BytesMeet files expected (CompletesOk expected) c (rs ++ [last])
  | [], _, _, hlast => ⟨hlast, trivial⟩
  | r :: rest, c, hnone, hlast => by
      simp only [noneCompletes, Bool.and_eq_true, Bool.or_eq_true, beq_iff_eq, bne_iff_ne] at hnone
      refine ⟨fun hpd hpos => ?_, bytesMeet_append_last last rest _ hnone.2 hlast⟩
      rcases hnone.1 with h | h
      · exact absurd h hpd
      · exact absurd hpos h

/-- Where the small post stands before its last byte. -/
def smallConn : Conn := (arriving (freshAnswers 0 0) smallPost).foldl (recvByte (fun _ => 0) 2) freshConn

theorem smallConn_completes : CompletesOk 2 smallConn ⟨0x62, freshAnswers 0 0⟩ := by
  have hpd : smallConn.hs.postdata = 0x02A04100 := by decide +kernel
  have hpos : smallConn.hs.postpos = 9 := by decide +kernel
  have hview : ∀ x < 2, view (smallConn.mem.store (u32 (0x02A04100 + 9)) 0x62) 0x02A04100 x =
      if x = 0 then 0x62 else 0x0d := by decide +kernel
  intro _ _
  rw [hpd, hpos]
  generalize view (smallConn.mem.store (u32 (0x02A04100 + 9)) 0x62) 0x02A04100 = v at hview
  have hline : FirstLine v 10 1 := by
    refine ⟨by decide, Or.inr (hview 1 (by decide)), fun x hx => ?_⟩
    rw [hview x (by omega), if_pos (by omega)]
    decide
  refine ⟨fun blen line hlf => ?_, fun _ _ _ => Or.inl rfl, fun _ _ _ _ _ => Or.inr (Or.inl rfl),
    fun blen j line _ hlt hover => ?_, fun start _ h => ?_⟩
  · have hblen := line.unique hline
    rw [hblen, hview 1 (by decide)] at hlf
    exact absurd hlf (by decide)
  · have hblen := line.unique hline
    omega
  · omega

/-- An upload of two bytes goes through. -/
theorem flashes_only_uploads_two_bytes :
    ∃ c, Relation.ReflTransGen (Step (fun _ => 0) 2 (CompletesOk 2)) (httpAccept (fun _ => 0) fun _ => 0) c ∧
      c.hs.biosStart ≠ 0 ∧ FlashesUpload 2 c := by
  have hmeets : BytesMeet (fun _ => 0) 2 (CompletesOk 2) freshConn
      (arriving (freshAnswers 0 0) smallPost ++ [⟨0x62, freshAnswers 0 0⟩]) :=
    bytesMeet_append_last _ _ _ (by decide +kernel) smallConn_completes
  have hrun : Relation.ReflTransGen (Step (fun _ => 0) 2 (CompletesOk 2)) freshConn
      (afterPost 2 (freshAnswers 0 0) (smallPost ++ [0x62])) := by
    refine .single (.event freshConn _ rfl (arriving_possible _ _ rfl (by decide)) ?_)
    simpa [Event.Meets, arriving] using hmeets
  exact ⟨_, hrun, by decide +kernel, flashes_only_uploads _ 2 (by decide) _ _ _ hrun⟩

end Cromwell.Http
