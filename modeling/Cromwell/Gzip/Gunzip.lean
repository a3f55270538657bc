/-
Module: Cromwell.Gzip.Gunzip
Layer: Proofs
Purpose: `decompress_kernel` on a well formed file: the header is passed over, the blocks are expanded, the bytes that
  `NEEDBITS` has read too many are given back, and the check sum and the length are those of the contents. What the
  window and the uninitialised memory hold makes no difference.
Imports: Cromwell.Gzip.Dynamic
Trusted boundary: none
Main exports: Inbuf.Ready, blocksLoop_spec, undoLookahead_ready, inflate_spec, gunzipHeader_spec, getLong_spec,
  decompressKernel_encodes, decompressKernel_restores
-/
import Cromwell.Gzip.Dynamic

namespace Cromwell.Gzip

open BitString

/-! ### Bytes that are left -/

/-- The first buffer is in use, and `rest` has not been read. -/
structure Inbuf.Ready (s : Inbuf) (rest : List UInt8) : Prop where
  size : s.insize = s.input.length
  left : s.input.drop s.inptr = rest

theorem Inbuf.Ready.length_le {s : Inbuf} {rest : List UInt8} (h : s.Ready rest) : rest.length ≤ s.input.length := by
  rw [← h.left, List.length_drop]
  exact Nat.sub_le _ _

/-- `get_byte()` while there is a byte. -/
theorem getByte_spec {s : Inbuf} {c : UInt8} {rest : List UInt8} (h : s.Ready (c :: rest)) :
    ∃ s', s.getByte = .ok (c, s') ∧ s'.Ready rest ∧ s'.input = s.input := by
  have hlt : s.inptr < s.input.length := by
    by_contra hge
    have hnil := h.left
    rw [List.drop_eq_nil_of_le (Nat.le_of_not_lt hge)] at hnil
    exact absurd hnil (List.cons_ne_nil c rest).symm
  have hleft := h.left
  rw [List.drop_eq_getElem_cons hlt, List.cons.injEq] at hleft
  refine ⟨{ s with inptr := s.inptr + 1 }, ?_, ⟨h.size, hleft.2⟩, rfl⟩
  rw [Inbuf.getByte_of_lt (h.size ▸ hlt), List.getD_eq_getElem _ _ hlt, hleft.1]

theorem skipBytes_spec :
    ∀ (l : List UInt8) {s : Inbuf} {rest : List UInt8}, s.Ready (l ++ rest) →
      ∃ s', skipBytes l.length s = .ok s' ∧ s'.Ready rest ∧ s'.input = s.input := by
  intro l
  induction l with
  | nil => exact fun h => ⟨_, rfl, h, rfl⟩
  | cons c l ih =>
      intro s rest h
      obtain ⟨s₁, hget, hready, hinput₁⟩ := getByte_spec h
      obtain ⟨s', hrun, hready', hinput⟩ := ih hready
      refine ⟨s', ?_, hready', hinput.trans hinput₁⟩
      rw [List.length_cons, skipBytes, hget, ok_bind]
      exact hrun

theorem skipString_spec :
    ∀ (l : List UInt8) {s : Inbuf} {rest : List UInt8} {rounds : Nat}, (∀ c ∈ l, c ≠ 0) → s.Ready (l ++ 0 :: rest) →
      l.length < rounds → ∃ s', skipString rounds s = .ok s' ∧ s'.Ready rest ∧ s'.input = s.input := by
  intro l
  induction l with
  | nil =>
      intro s rest rounds _ h hrounds
      obtain ⟨rounds, rfl⟩ : ∃ k, rounds = k + 1 := ⟨rounds - 1, by rw [List.length_nil] at hrounds; omega⟩
      obtain ⟨s', hget, hready, hinput⟩ := getByte_spec h
      refine ⟨s', ?_, hready, hinput⟩
      rw [skipString, hget, ok_bind]
      exact if_neg (not_not.mpr rfl)
  | cons c l ih =>
      intro s rest rounds hl h hrounds
      rw [List.length_cons] at hrounds
      obtain ⟨rounds, rfl⟩ : ∃ k, rounds = k + 1 := ⟨rounds - 1, by omega⟩
      obtain ⟨s₁, hget, hready, hinput₁⟩ := getByte_spec h
      obtain ⟨s', hrun, hready', hinput⟩ := ih (fun x hx => hl x (List.mem_cons_of_mem _ hx)) hready
        (Nat.lt_of_succ_lt_succ hrounds)
      refine ⟨s', ?_, hready', hinput.trans hinput₁⟩
      rw [skipString, hget, ok_bind]
      exact (if_pos (hl c List.mem_cons_self)).trans hrun

theorem lor_shiftLeft {a k : Nat} (c : Nat) (h : a < 2 ^ k) : a ||| c <<< k = a + 2 ^ k * c := by
  rw [Nat.lor_comm, ← Nat.shiftLeft_add_eq_or_of_lt h, Nat.shiftLeft_eq]
  ring

/-- The four bytes of a number, put together. -/
theorem longBytes_value (n : Nat) :
    (UInt8.ofNat n).toNat ||| (UInt8.ofNat (n / 2 ^ 8)).toNat <<< 8 |||
      (UInt8.ofNat (n / 2 ^ 16)).toNat <<< 16 ||| (UInt8.ofNat (n / 2 ^ 24)).toNat <<< 24 = ByteMemory.u32 n := by
  have hlow : ∀ x, (UInt8.ofNat x).toNat = x % 2 ^ 8 := fun x => UInt8.toNat_ofNat'
  rw [hlow, hlow, hlow, hlow, lor_shiftLeft (k := 8) _ (by omega), lor_shiftLeft (k := 16) _ (by omega),
    lor_shiftLeft (k := 24) _ (by omega), ByteMemory.u32]
  omega

/-- A number of bytes, the lowest one first. -/
theorem getLong_spec {s : Inbuf} {n : Nat} {rest : List UInt8} (h : s.Ready (longBytes n ++ rest)) :
    ∃ s', getLong s = .ok (ByteMemory.u32 n, s') ∧ s'.Ready rest ∧ s'.input = s.input := by
  obtain ⟨s₁, hget₁, hready₁, hinput₁⟩ := getByte_spec h
  obtain ⟨s₂, hget₂, hready₂, hinput₂⟩ := getByte_spec hready₁
  obtain ⟨s₃, hget₃, hready₃, hinput₃⟩ := getByte_spec hready₂
  obtain ⟨s₄, hget₄, hready₄, hinput₄⟩ := getByte_spec hready₃
  refine ⟨s₄, ?_, hready₄, hinput₄.trans (hinput₃.trans (hinput₂.trans hinput₁))⟩
  rw [getLong, hget₁, ok_bind]
  dsimp only
  rw [hget₂, ok_bind]
  dsimp only
  rw [hget₃, ok_bind]
  dsimp only
  rw [hget₄, ok_bind]
  dsimp only
  rw [longBytes_value]

/-! ### The header -/

/-- The optional fields one after the other. -/
theorem skipFields_eq (flags : UInt8) (s : Inbuf) :
    skipFields flags s =
      (if flags &&& 0x04 ≠ 0 then getShort s >>= fun p => skipBytes p.1 p.2 else .ok s) >>= fun s =>
        (if flags &&& 0x08 ≠ 0 then skipString (s.input.length + 1) s else .ok s) >>= fun s =>
          if flags &&& 0x10 ≠ 0 then skipString (s.input.length + 1) s else .ok s := by
  by_cases h4 : flags &&& 0x04 ≠ 0 <;> by_cases h8 : flags &&& 0x08 ≠ 0
  · simp only [skipFields, if_pos h4, if_pos h8, bind_assoc]
  · simp only [skipFields, if_pos h4, if_neg h8, bind_assoc]
  · simp only [skipFields, if_neg h4, if_pos h8]
  · simp only [skipFields, if_neg h4, if_neg h8]

theorem skipFields_spec {header : Header} (hv : header.Valid) {s : Inbuf} {rest : List UInt8}
    (h : s.Ready ((if header.flags &&& 0x04 ≠ 0 then
        [UInt8.ofNat header.extra.length, UInt8.ofNat (header.extra.length / 256)] ++ header.extra else []) ++
      ((if header.flags &&& 0x08 ≠ 0 then header.name ++ [0] else []) ++
        ((if header.flags &&& 0x10 ≠ 0 then header.comment ++ [0] else []) ++ rest)))) :
    ∃ s', skipFields header.flags s = .ok s' ∧ s'.Ready rest ∧ s'.input = s.input := by
  have hextra : ∀ {rest : List UInt8} {s : Inbuf}, s.Ready ((if header.flags &&& 0x04 ≠ 0 then
        [UInt8.ofNat header.extra.length, UInt8.ofNat (header.extra.length / 256)] ++ header.extra else []) ++ rest) →
      ∃ s', (if header.flags &&& 0x04 ≠ 0 then getShort s >>= fun p => skipBytes p.1 p.2 else .ok s) = .ok s' ∧
        s'.Ready rest ∧ s'.input = s.input := by
    intro rest s h
    by_cases hf : header.flags &&& 0x04 ≠ 0
    · rw [if_pos hf] at h ⊢
      obtain ⟨s₁, hget₁, hready₁, hinput₁⟩ := getByte_spec h
      obtain ⟨s₂, hget₂, hready₂, hinput₂⟩ := getByte_spec hready₁
      obtain ⟨s', hrun, hready, hinput⟩ := skipBytes_spec header.extra hready₂
      have hshort : getShort s = .ok (header.extra.length, s₂) := by
        have hlow : ∀ x, (UInt8.ofNat x).toNat = x % 2 ^ 8 := fun x => UInt8.toNat_ofNat'
        have hlt := hv.extra
        have hvalue : (UInt8.ofNat header.extra.length).toNat |||
            (UInt8.ofNat (header.extra.length / 256)).toNat <<< 8 = header.extra.length := by
          rw [hlow, hlow, lor_shiftLeft _ (Nat.mod_lt _ (by norm_num))]
          omega
        rw [getShort, hget₁, ok_bind]
        dsimp only
        rw [hget₂, ok_bind]
        dsimp only
        rw [hvalue]
      exact ⟨s', by rw [hshort, ok_bind, hrun], hready, hinput.trans (hinput₂.trans hinput₁)⟩
    · rw [if_neg hf] at h ⊢
      exact ⟨s, rfl, h, rfl⟩
  have hstring : ∀ {l rest : List UInt8} {s : Inbuf} (c : Prop) [Decidable c], (∀ x ∈ l, x ≠ 0) →
      s.Ready ((if c then l ++ [0] else []) ++ rest) →
      ∃ s', (if c then skipString (s.input.length + 1) s else .ok s) = .ok s' ∧ s'.Ready rest ∧
        s'.input = s.input := by
    intro l rest s c _ hl h
    by_cases hc : c
    · rw [if_pos hc, List.append_assoc] at h
      rw [if_pos hc]
      have hlen := h.length_le
      rw [List.length_append] at hlen
      exact skipString_spec l hl h (by omega)
    · rw [if_neg hc] at h ⊢
      exact ⟨s, rfl, h, rfl⟩
  obtain ⟨s₁, hrun₁, hready₁, hinput₁⟩ := hextra h
  obtain ⟨s₂, hrun₂, hready₂, hinput₂⟩ := hstring _ hv.name hready₁
  obtain ⟨s₃, hrun₃, hready₃, hinput₃⟩ := hstring _ hv.comment hready₂
  refine ⟨s₃, ?_, hready₃, hinput₃.trans (hinput₂.trans hinput₁)⟩
  rw [skipFields_eq, hrun₁, ok_bind, hrun₂, ok_bind, hrun₃]

/-- The header of a file, from the first call of `fill_inbuf` on. -/
theorem gunzipHeader_spec {header : Header} (hv : header.Valid) (rest : List UInt8) :
    ∃ s', gunzipHeader ⟨header.bytes ++ rest, 0, 0, 0, 0⟩ = .ok s' ∧ s'.Ready rest ∧
      s'.input = header.bytes ++ rest := by
  obtain ⟨file, hfile⟩ : ∃ l, l = header.bytes ++ rest := ⟨_, rfl⟩
  have hstart : file = 0x1f :: header.magic1 :: 8 :: header.flags :: (header.passed ++
      ((if header.flags &&& 0x04 ≠ 0 then
        [UInt8.ofNat header.extra.length, UInt8.ofNat (header.extra.length / 256)] ++ header.extra else []) ++
      ((if header.flags &&& 0x08 ≠ 0 then header.name ++ [0] else []) ++
        ((if header.flags &&& 0x10 ≠ 0 then header.comment ++ [0] else []) ++ rest)))) := by
    rw [hfile, Header.bytes]
    simp only [List.append_assoc, List.cons_append, List.nil_append]
  rw [← hfile]
  have hfirst : Inbuf.getByte ⟨file, 0, 0, 0, 0⟩ = .ok (0x1f, ⟨file, file.length, 1, 0, 0⟩) := by
    rw [hstart]
    rfl
  have hready : Inbuf.Ready ⟨file, file.length, 1, 0, 0⟩ (file.drop 1) := ⟨rfl, rfl⟩
  rw [hstart, List.drop_one, List.tail_cons, ← hstart] at hready
  obtain ⟨s₁, hget₁, hready₁, hinput₁⟩ := getByte_spec hready
  obtain ⟨s₂, hget₂, hready₂, hinput₂⟩ := getByte_spec hready₁
  obtain ⟨s₃, hget₃, hready₃, hinput₃⟩ := getByte_spec hready₂
  obtain ⟨s₄, hrun₄, hready₄, hinput₄⟩ := skipBytes_spec header.passed hready₃
  obtain ⟨s₅, hrun₅, hready₅, hinput₅⟩ := skipFields_spec hv hready₄
  refine ⟨s₅, ?_, hready₅, hinput₅.trans (hinput₄.trans (hinput₃.trans (hinput₂.trans hinput₁)))⟩
  have hmagic : ¬ ((0x1f : UInt8) ≠ 0x1f ∨ (header.magic1 ≠ 0x8b ∧ header.magic1 ≠ 0x9e)) := by
    rintro (hne | ⟨hne, hne'⟩)
    · exact hne rfl
    · exact hv.magic.elim hne hne'
  rw [hv.passed] at hrun₄
  rw [gunzipHeader, hfirst, ok_bind]
  dsimp only
  rw [hget₁, ok_bind]
  dsimp only
  rw [hget₂, ok_bind]
  dsimp only
  rw [if_neg hmagic, if_neg (not_not.mpr rfl), hget₃, ok_bind]
  dsimp only
  rw [if_neg (not_not.mpr hv.plain), if_neg (not_not.mpr hv.whole), if_neg (not_not.mpr hv.known), hrun₄, ok_bind,
    hrun₅]

/-! ### All blocks -/

theorem length_blocks_le (blocks : List Block) : blocks.length ≤ (streamBits blocks).length := by
  have hone (final : Bool) (b : Block) : 1 ≤ (b.bits final).length := by
    cases b <;> exact Nat.succ_le_succ (Nat.zero_le _)
  fun_induction streamBits blocks with
  | case1 => exact le_rfl
  | case2 b => exact hone true b
  | case3 b b' blocks ih =>
      rw [List.length_cons, List.length_append, Nat.add_comm]
      exact Nat.add_le_add (hone false b) ih

/-- The blocks one after the other, for a rest that ends at a byte. -/
theorem blocksLoop_spec (memory : Memory) {r : List Bool} (hlen : 32 ≤ r.length) :
    ∀ (blocks : List Block) {off rounds : Nat} {inp : Inbuf} {o : Slide} {t : List UInt8}, StreamValid off blocks →
      (off + (streamBits blocks).length + r.length) % 8 = 0 → inp.Holds (streamBits blocks ++ r) → o.Represents t →
      o.outcnt < wsize → blocks.length ≤ rounds →
      ∃ inp' o', blocksLoop memory rounds ⟨inp, o⟩ = .ok (0, ⟨inp', o'⟩) ∧ inp'.Holds r ∧
        o'.Represents (Lz77.expand t (streamItems blocks)) ∧ o'.outcnt < wsize ∧ inp'.input = inp.input := by
  intro blocks
  induction blocks with
  | nil => exact fun hv => hv.elim
  | cons b blocks ih =>
      intro off rounds inp o t hv hoff h ho hroom hrounds
      rw [List.length_cons] at hrounds
      obtain ⟨rounds, rfl⟩ : ∃ k, rounds = k + 1 := ⟨rounds - 1, by omega⟩
      cases blocks with
      | nil =>
          obtain ⟨inp', o', hrun, hholds, hrep, hroom', hinput⟩ := inflateBlock_spec memory hlen hv hoff h ho hroom
          refine ⟨inp', o', ?_, hholds, ?_, hroom', hinput⟩
          · rw [blocksLoop, hrun, ok_bind]
            rfl
          · rwa [streamItems, List.flatMap_singleton]
      | cons b' blocks =>
          obtain ⟨hb, hrest⟩ := hv
          rw [streamBits, List.append_assoc] at h
          rw [streamBits, List.length_append] at hoff
          obtain ⟨inp₁, o₁, hrun₁, hholds₁, hrep₁, hroom₁, hinput₁⟩ := inflateBlock_spec memory
            (by rw [List.length_append]; omega) hb (by rw [List.length_append]; omega) h ho hroom
          obtain ⟨inp', o', hrun, hholds, hrep, hroom', hinput⟩ :=
            ih hrest (by omega) hholds₁ hrep₁ hroom₁ (Nat.le_of_succ_le_succ hrounds)
          refine ⟨inp', o', ?_, hholds, ?_, hroom', hinput.trans hinput₁⟩
          · rw [blocksLoop, hrun₁, ok_bind, ← hrun]
            rfl
          · rwa [streamItems, List.flatMap_cons, Lz77.expand_append]

/-! ### Bytes that were read too early -/

theorem undoLookahead_eq :
    ∀ (rounds : Nat) (s : Inbuf), s.bk ≤ rounds →
      undoLookahead rounds s = { s with bk := s.bk % 8, inptr := s.inptr - s.bk / 8 } := by
  intro rounds
  induction rounds with
  | zero =>
      intro s h
      have hbk : s.bk = 0 := Nat.le_zero.mp h
      have hmod : s.bk % 8 = s.bk := by rw [hbk]
      have hdiv : s.bk / 8 = 0 := by rw [hbk]
      rw [undoLookahead, hmod, hdiv]
      rfl
  | succ rounds ih =>
      intro s h
      rw [undoLookahead]
      by_cases hbk : s.bk ≥ 8
      · rw [if_pos hbk, ih _ (show s.bk - 8 ≤ rounds by omega)]
        have hmod : (s.bk - 8) % 8 = s.bk % 8 := (Nat.mod_eq_sub_mod hbk).symm
        have hptr : s.inptr - 1 - (s.bk - 8) / 8 = s.inptr - s.bk / 8 := by omega
        rw [Inbuf.mk.injEq]
        exact ⟨rfl, rfl, hptr, rfl, hmod⟩
      · have hmod : s.bk % 8 = s.bk := Nat.mod_eq_of_lt (Nat.lt_of_not_le hbk)
        have hdiv : s.bk / 8 = 0 := Nat.div_eq_of_lt (Nat.lt_of_not_le hbk)
        rw [if_neg hbk, hmod, hdiv]
        rfl

/-- The end of the input that has so many bytes. -/
theorem ofBytes_suffix {rest input : List UInt8} (h : ofBytes rest <:+ ofBytes input) :
    input.drop (input.length - rest.length) = rest := by
  have hlen := h.length_le
  rw [length_ofBytes, length_ofBytes] at hlen
  have hend := List.suffix_iff_eq_drop.mp h
  have hbytes : ofBytes (input.drop (input.length - rest.length)) <:+ ofBytes input :=
    ⟨ofBytes (input.take (input.length - rest.length)), by rw [← ofBytes_append, List.take_append_drop]⟩
  have hend' := List.suffix_iff_eq_drop.mp hbytes
  apply ofBytes_injective
  rw [hend', hend, length_ofBytes, length_ofBytes, length_ofBytes, List.length_drop]
  congr 1
  omega

/-- Whole bytes go back, the bits behind the last block are lost. -/
theorem undoLookahead_ready {s : Inbuf} {pad : List Bool} {rest : List UInt8} (h : s.Holds (pad ++ ofBytes rest))
    (hpad : pad.length < 8) (hend : pad ++ ofBytes rest <:+ ofBytes s.input) :
    (undoLookahead s.bk s).Ready rest := by
  have hlen := h.length
  have hptr := h.ptr
  have hread := h.read
  rw [List.length_append, length_ofBytes] at hlen
  rw [undoLookahead_eq _ _ le_rfl]
  have hback : s.inptr - s.bk / 8 = s.input.length - rest.length := by omega
  refine ⟨h.size, ?_⟩
  rw [hback]
  exact ofBytes_suffix ((List.suffix_append pad _).trans hend)

/-! ### `inflate` -/

/-- The bits of some blocks at the beginning of a byte, filled up, with at least four bytes behind them. -/
theorem inflate_spec (memory : Memory) {blocks : List Block} {body rest : List UInt8} {pad : List Bool} {inp : Inbuf}
    {window : List UInt8} (hv : StreamValid 0 blocks) (hcontained : Lz77.SelfContained 0 (streamItems blocks))
    (hpad : pad.length < 8) (hbody : ofBytes body = streamBits blocks ++ pad) (hrest : 4 ≤ rest.length)
    (h : inp.Ready (body ++ rest)) (hwindow : window.length = wsize) :
    ∃ inp' o', inflate memory ⟨inp, ⟨window, 0, [], 0, 0xffffffff#32⟩⟩ = .ok (0, ⟨inp', o'⟩) ∧ inp'.Ready rest ∧
      o'.output = Lz77.expand [] (streamItems blocks) ∧
      o'.bytesOut = ByteMemory.u32 (Lz77.expand [] (streamItems blocks)).length ∧
      o'.crc = crcUpdate 0xffffffff#32 (Lz77.expand [] (streamItems blocks)) := by
  obtain ⟨r, hr⟩ : ∃ r, r = pad ++ ofBytes rest := ⟨_, rfl⟩
  have hbits : ofBytes (body ++ rest) = streamBits blocks ++ r := by
    rw [ofBytes_append, hbody, List.append_assoc, hr]
  have hrlen : r.length = pad.length + 8 * rest.length := by rw [hr, List.length_append, length_ofBytes]
  have hbodylen : 8 * body.length = (streamBits blocks).length + pad.length := by
    rw [← length_ofBytes, hbody, List.length_append]
  have hptr : inp.inptr ≤ inp.input.length := by
    by_contra hgt
    have hnil := h.left
    rw [List.drop_eq_nil_of_le (Nat.le_of_not_le hgt), eq_comm, List.append_eq_nil_iff] at hnil
    rw [hnil.2] at hrest
    exact absurd hrest (by decide)
  have hholds : ({ inp with bb := 0, bk := 0 } : Inbuf).Holds (streamBits blocks ++ r) :=
    { size := h.size
      ptr := hptr
      room := Nat.succ_pos 23
      read := Nat.zero_le _
      buffer := Nat.one_pos
      rest := by rw [← hbits, ← h.left]; rfl }
  have hfuel : blocks.length ≤ 8 * inp.input.length + 1 := by
    have hle := hholds.length_le
    have hblocks := length_blocks_le blocks
    rw [List.length_append] at hle
    exact (hblocks.trans ((Nat.le_add_right _ _).trans hle)).trans (Nat.le_succ _)
  obtain ⟨inp₁, o₁, hrun, hholds₁, hrep, hroom, hinput⟩ := blocksLoop_spec memory (by omega) blocks hv (by omega)
    hholds (represents_start hwindow) (Nat.two_pow_pos 15) hfuel
  have hwritten : (Lz77.expand window (streamItems blocks)).drop wsize = Lz77.expand [] (streamItems blocks) := by
    rw [← hwindow]
    exact Lz77.drop_expand hcontained
  obtain ⟨hout, -, hbytes, hcrc⟩ := flushWindow_output hrep
  rw [hwritten] at hout hbytes hcrc
  have hsuffix : pad ++ ofBytes rest <:+ ofBytes inp₁.input := by
    rw [hinput, ← hr]
    have hin : ofBytes inp.input = ofBytes (inp.input.take inp.inptr) ++ (streamBits blocks ++ r) := by
      rw [← hbits, ← h.left, ← ofBytes_append, List.take_append_drop]
    exact ⟨ofBytes (inp.input.take inp.inptr) ++ streamBits blocks, by rw [hin, List.append_assoc]⟩
  rw [hr] at hholds₁
  refine ⟨undoLookahead inp₁.bk inp₁, flushWindow o₁, ?_, undoLookahead_ready hholds₁ hpad hsuffix, hout, hbytes,
    hcrc⟩
  rw [inflate]
  dsimp only
  rw [hrun, ok_bind]
  exact if_neg (not_not.mpr rfl)

/-- The check sum in the source's form. -/
theorem checkSum_eq (out : List UInt8) : checkSum out = (crcUpdate 0xffffffff#32 out ^^^ 0xffffffff#32).toNat := by
  rw [crcUpdate_eq]
  rfl

theorem checkSum_lt (out : List UInt8) : checkSum out < 2 ^ 32 := BitVec.isLt _

/-- All of `gunzip` on a compressed file. -/
theorem gunzip_spec (memory : Memory) {window : List UInt8} {header : Header} {blocks : List Block}
    {body file out : List UInt8} (hwindow : window.length = wsize) (h : Encodes header blocks body file out) :
    ∃ st, gunzip memory ⟨⟨file, 0, 0, 0, 0⟩, ⟨window, 0, [], 0, 0xffffffff#32⟩⟩ = .ok st ∧ st.out.output = out := by
  obtain ⟨hheader, hblocks, ⟨pad, hpad, hbody⟩, hcontained, hout, hfile⟩ := h
  obtain ⟨tail, htail⟩ : ∃ l, l = longBytes (checkSum out) ++ longBytes out.length := ⟨_, rfl⟩
  have hfile' : file = header.bytes ++ (body ++ tail) := by
    rw [hfile, htail]
    simp only [List.append_assoc]
  obtain ⟨s₁, hrun₁, hready₁, hinput₁⟩ := gunzipHeader_spec hheader (body ++ tail)
  obtain ⟨s₂, o₂, hrun₂, hready₂, hout₂, hbytes₂, hcrc₂⟩ := inflate_spec memory hblocks hcontained hpad hbody
    (by rw [htail, List.length_append]; exact Nat.le_add_right 4 _) hready₁ hwindow
  rw [← hout] at hout₂ hbytes₂ hcrc₂
  rw [htail] at hready₂
  obtain ⟨s₃, hrun₃, hready₃, hinput₃⟩ := getLong_spec hready₂
  rw [← List.append_nil (longBytes out.length)] at hready₃
  obtain ⟨s₄, hrun₄, hready₄, hinput₄⟩ := getLong_spec hready₃
  rw [ByteMemory.u32_of_lt (checkSum_lt out)] at hrun₃
  refine ⟨⟨s₄, o₂⟩, ?_, hout₂⟩
  rw [gunzip, hfile']
  dsimp only
  rw [hrun₁, ok_bind, hrun₂, ok_bind]
  dsimp only
  rw [if_neg (not_not.mpr rfl), hrun₃, ok_bind]
  dsimp only
  rw [hrun₄, ok_bind]
  dsimp only
  rw [if_neg (not_not.mpr (by rw [hcrc₂, checkSum_eq])), if_neg (not_not.mpr hbytes₂.symm)]

/-- A compressed file gives back its contents, whatever the memory held before: stored blocks, blocks in the fixed
    codes and blocks with codes of their own, in any order and number. -/
theorem decompressKernel_encodes (memory : Memory) {window : List UInt8} {header : Header} {blocks : List Block}
    {body file out : List UInt8} (hwindow : window.length = wsize) (h : Encodes header blocks body file out) :
    decompressKernel memory window file = .ok out := by
  obtain ⟨st, hrun, hout⟩ := gunzip_spec memory hwindow h
  rw [decompressKernel, hrun, ok_bind, hout]

/-- What a compressor makes of four equal bytes: the byte, and a copy of three from one back. -/
theorem fourEqual_encodes :
    Encodes ⟨0x8b, 0, [0, 0, 0, 0, 0, 3], [], [], []⟩ [.fixed [.literal 97, .copy 0 0 0 0]] [75, 4, 2, 0]
      [31, 139, 8, 0, 0, 0, 0, 0, 0, 3, 75, 4, 2, 0, 69, 229, 152, 173, 4, 0, 0, 0] [97, 97, 97, 97] where
  headerValid :=
    { magic := Or.inl rfl
      plain := rfl
      whole := rfl
      known := rfl
      passed := rfl
      extra := Nat.two_pow_pos 16
      name := List.forall_mem_nil _
      comment := List.forall_mem_nil _ }
  blocksValid := by
    intro x hx
    rcases List.mem_pair.mp hx with rfl | rfl
    · exact (by decide +kernel : fixedLiteral.getD 97 0 ≠ 0)
    · exact ⟨by decide, by decide, by decide +kernel, by decide, by decide, by decide⟩
  filled := ⟨[false, false], by decide, by decide +kernel⟩
  contained := ⟨le_rfl, le_rfl, trivial⟩
  contents := by decide
  layout := by decide +kernel

theorem decompressKernel_fourEqual :
    decompressKernel (fun _ _ => .zero) (List.replicate wsize 0)
      [31, 139, 8, 0, 0, 0, 0, 0, 0, 3, 75, 4, 2, 0, 69, 229, 152, 173, 4, 0, 0, 0] = .ok [97, 97, 97, 97] :=
  decompressKernel_encodes _ List.length_replicate fourEqual_encodes

end Cromwell.Gzip
