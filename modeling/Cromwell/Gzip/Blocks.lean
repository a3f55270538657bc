/-
Module: Cromwell.Gzip.Blocks
Layer: Proofs
Purpose: Each kind of block is read to its last bit, and what it stands for is appended to what was produced so far.
Imports: Cromwell.Gzip.Decoding, Cromwell.Gzip.Format
Trusted boundary: none
Main exports: codesLoop_spec, inflateStored_spec, inflateFixed_spec, lengthsLoop_spec, inflateDynamic_spec,
  inflateBlock_spec
-/
import Cromwell.Gzip.Decoding
import Cromwell.Gzip.Format

namespace Cromwell.Gzip

open BitString Canonical

/-! ### Entries of the format's own tables -/

/-- The entry of a literal or length symbol. -/
abbrev literalEntry : Nat → Nat → Huft := symbolEntry 257 cplens cplext

/-- The entry of a distance symbol. -/
abbrev distanceEntry : Nat → Nat → Huft := symbolEntry 0 cpdist cpdext

theorem literalEntry_byte (c : UInt8) (bits : Nat) : literalEntry c.toNat bits = ⟨16, bits, c.toNat⟩ := by
  have hc : c.toNat < 256 := c.toNat_lt
  simp only [literalEntry, symbolEntry, if_pos hc, if_pos (show c.toNat < 257 by omega)]

theorem literalEntry_end (bits : Nat) : literalEntry 256 bits = ⟨15, bits, 256⟩ := rfl

theorem literalEntry_length (i bits : Nat) :
    literalEntry (257 + i) bits = ⟨cplext.getD i 0, bits, cplens.getD i 0⟩ := by
  simp only [literalEntry, symbolEntry, if_neg (show ¬ 257 + i < 257 by omega), Nat.add_sub_cancel_left]

theorem distanceEntry_eq (j bits : Nat) : distanceEntry j bits = ⟨cpdext.getD j 0, bits, cpdist.getD j 0⟩ := by
  simp only [distanceEntry, symbolEntry, if_neg (Nat.not_lt_zero j), Nat.sub_zero]

theorem cplext_lt : ∀ i < 29, cplext.getD i 0 < 6 := by decide

theorem cpdext_lt : ∀ j < 30, cpdext.getD j 0 < 14 := by decide

theorem cpdist_pos : ∀ j < 30, 1 ≤ cpdist.getD j 0 := by decide

/-- No distance is greater than the window. -/
theorem cpdist_le : ∀ j < 30, cpdist.getD j 0 + 2 ^ cpdext.getD j 0 ≤ wsize + 1 := by decide

/-! ### Coded symbols -/

/-- The decoding tables of a block. -/
structure Coding (tl td : Tables) (bl bd : Nat) (ll dl : List Nat) : Prop where
  literals : Decodes tl bl ll literalEntry
  distances : Decodes td bd dl distanceEntry

/-- One symbol: its bits are read, and what it stands for is appended. -/
theorem codesLoop_symbol {tl td : Tables} {bl bd : Nat} {ll dl : List Nat} (hc : Coding tl td bl bd ll dl)
    {x : Symbol} (hx : x.Valid ll dl) {inp : Inbuf} {o : Slide} {r : List Bool} {t : List UInt8}
    (h : inp.Holds (x.bits ll dl ++ r)) (hlen : 32 ≤ r.length) (ho : o.Represents t) (hroom : o.outcnt < wsize)
    (rounds : Nat) :
    ∃ inp' o', codesLoop tl td bl bd (rounds + 1) ⟨inp, o⟩ = codesLoop tl td bl bd rounds ⟨inp', o'⟩ ∧
      inp'.Holds r ∧ o'.Represents (x.item.expand t) ∧ o'.outcnt < wsize ∧ inp'.input = inp.input := by
  cases x with
  | literal c =>
      have hused : ll.getD c.toNat 0 ≠ 0 := hx
      obtain ⟨bits, inp', hrun, hholds, hinput⟩ := hc.literals.decode_word hused (symbolEntry_b 257 cplens cplext _)
        (fun bits => by rw [literalEntry_byte]) h hlen
      obtain ⟨hrep, hroom'⟩ := putByte_spec ho hroom c
      refine ⟨inp', putByte o c, ?_, hholds, hrep, hroom', hinput⟩
      rw [literalEntry_byte] at hrun
      rw [codesLoop, hrun]
      show codesLoop tl td bl bd rounds ⟨inp', putByte o (UInt8.ofNat c.toNat)⟩ = _
      rw [UInt8.ofNat_toNat]
  | copy i x j y =>
      obtain ⟨hi, hxlt, hused, hj, hylt, hused'⟩ := hx
      have hi' := cplext_lt i hi
      have hj' := cpdext_lt j hj
      simp only [Symbol.bits, List.append_assoc] at h
      obtain ⟨bits, inp₁, hrun₁, hholds₁, hinput₁⟩ := hc.literals.decode_word hused (symbolEntry_b 257 cplens cplext _)
        (fun bits => by rw [literalEntry_length]; show cplext.getD i 0 ≤ 16; omega) h
        (by simp only [List.length_append]; omega)
      obtain ⟨inp₂, hrun₂, hholds₂, hinput₂⟩ := takeBits_append hholds₁ (by omega) hxlt
      obtain ⟨bits', inp₃, hrun₃, hholds₃, hinput₃⟩ := hc.distances.decode_word hused' (symbolEntry_b 0 cpdist cpdext _)
        (fun bits => by rw [distanceEntry_eq]; show cpdext.getD j 0 ≤ 16; omega) hholds₂
        (by simp only [List.length_append]; omega)
      obtain ⟨inp₄, hrun₄, hholds₄, hinput₄⟩ := takeBits_append hholds₃ (by omega) hylt
      have hdist := cpdist_le j hj
      have hpos := cpdist_pos j hj
      obtain ⟨hrep, hroom'⟩ := copyMatch_spec ho hroom (show 1 ≤ cpdist.getD j 0 + y by omega)
        (show cpdist.getD j 0 + y ≤ wsize by omega) (cplens.getD i 0 + x)
      refine ⟨inp₄, copyMatch (cpdist.getD j 0) y (cplens.getD i 0 + x) o, ?_, hholds₄, hrep, hroom', ?_⟩
      · rw [literalEntry_length] at hrun₁
        rw [distanceEntry_eq] at hrun₃
        have hne : cplext.getD i 0 ≠ 16 := by omega
        have hne' : cplext.getD i 0 ≠ 15 := by omega
        rw [codesLoop, hrun₁]
        show (if cplext.getD i 0 = 16 then _ else if cplext.getD i 0 = 15 then _ else _) = _
        rw [if_neg hne, if_neg hne']
        show (takeBits (cplext.getD i 0) inp₁ >>= _) = _
        rw [hrun₂]
        show (decode td bd inp₂ >>= _) = _
        rw [hrun₃]
        show (takeBits (cpdext.getD j 0) inp₃ >>= _) = _
        rw [hrun₄]
        rfl
      · rw [hinput₄, hinput₃, hinput₂, hinput₁]

/-- All symbols of a block, up to the end of block code. -/
theorem codesLoop_spec {tl td : Tables} {bl bd : Nat} {ll dl : List Nat} (hc : Coding tl td bl bd ll dl)
    (hend : ll.getD 256 0 ≠ 0) {r : List Bool} (hlen : 32 ≤ r.length) :
    ∀ (symbols : List Symbol) (rounds : Nat) {inp : Inbuf} {o : Slide} {t : List UInt8},
      (∀ x ∈ symbols, x.Valid ll dl) → inp.Holds (codedBits ll dl symbols ++ r) → symbols.length < rounds →
      o.Represents t → o.outcnt < wsize →
      ∃ inp' o', codesLoop tl td bl bd rounds ⟨inp, o⟩ = .ok (0, ⟨inp', o'⟩) ∧ inp'.Holds r ∧
        o'.Represents (Lz77.expand t (symbols.map Symbol.item)) ∧ o'.outcnt < wsize ∧ inp'.input = inp.input := by
  intro symbols
  induction symbols with
  | nil =>
      intro rounds inp o t _ h hrounds ho hroom
      obtain ⟨rounds, rfl⟩ : ∃ n, rounds = n + 1 := ⟨rounds - 1, by omega⟩
      have hword : inp.Holds (codeWord ll 256 ++ r) := h
      obtain ⟨bits, inp', hrun, hholds, hinput⟩ := hc.literals.decode_word hend (symbolEntry_b 257 cplens cplext _)
        (fun bits => by rw [literalEntry_end]; exact Nat.le_succ 15) hword hlen
      refine ⟨inp', o, ?_, hholds, ho, hroom, hinput⟩
      rw [codesLoop, hrun]
      rfl
  | cons x symbols ih =>
      intro rounds inp o t hvalid h hrounds ho hroom
      obtain ⟨rounds, rfl⟩ : ∃ n, rounds = n + 1 := ⟨rounds - 1, by omega⟩
      have hword : inp.Holds (x.bits ll dl ++ (codedBits ll dl symbols ++ r)) := by
        simpa only [codedBits, List.flatMap_cons, List.append_assoc] using h
      obtain ⟨inp₁, o₁, hrun₁, hholds₁, hrep₁, hroom₁, hinput₁⟩ :=
        codesLoop_symbol hc (hvalid x List.mem_cons_self) hword (by rw [List.length_append]; omega) ho hroom rounds
      obtain ⟨inp', o', hrun, hholds, hrep, hroom', hinput⟩ := ih rounds
        (fun y hy => hvalid y (List.mem_cons_of_mem _ hy)) hholds₁
        (by rw [List.length_cons] at hrounds; omega) hrep₁ hroom₁
      exact ⟨inp', o', hrun₁.trans hrun, hholds, hrep, hroom', hinput.trans hinput₁⟩

/-- Every symbol has at least one bit. -/
theorem length_symbols_le (ll dl : List Nat) (symbols : List Symbol) (hvalid : ∀ x ∈ symbols, x.Valid ll dl) :
    symbols.length ≤ (codedBits ll dl symbols).length := by
  induction symbols with
  | nil => exact Nat.zero_le _
  | cons x symbols ih =>
      have hrest := ih fun y hy => hvalid y (List.mem_cons_of_mem _ hy)
      have hx := hvalid x List.mem_cons_self
      have hpos : 1 ≤ (x.bits ll dl).length := by
        cases x with
        | literal c =>
            rw [Symbol.bits, length_codeWord]
            exact Nat.one_le_iff_ne_zero.mpr hx
        | copy i x j y =>
            have hne : ll.getD (257 + i) 0 ≠ 0 := hx.2.2.1
            rw [Symbol.bits, List.length_append, length_codeWord]
            omega
      simp only [codedBits, List.flatMap_cons, List.length_append, List.length_cons] at hrest ⊢
      omega

theorem inflateCodes_spec {tl td : Tables} {bl bd : Nat} {ll dl : List Nat} (hc : Coding tl td bl bd ll dl)
    (hend : ll.getD 256 0 ≠ 0) {r : List Bool} (hlen : 32 ≤ r.length) {symbols : List Symbol} {inp : Inbuf} {o : Slide}
    {t : List UInt8} (hvalid : ∀ x ∈ symbols, x.Valid ll dl) (h : inp.Holds (codedBits ll dl symbols ++ r))
    (ho : o.Represents t) (hroom : o.outcnt < wsize) :
    ∃ inp' o', inflateCodes tl td bl bd ⟨inp, o⟩ = .ok (0, ⟨inp', o'⟩) ∧ inp'.Holds r ∧
      o'.Represents (Lz77.expand t (symbols.map Symbol.item)) ∧ o'.outcnt < wsize ∧ inp'.input = inp.input := by
  have hshort := length_symbols_le ll dl symbols hvalid
  have htotal := h.length_le
  rw [List.length_append] at htotal
  exact codesLoop_spec hc hend hlen symbols _ hvalid h (by show _ < 8 * inp.input.length + 1; omega) ho hroom

/-! ### Stored blocks -/

/-- The complement of the low half. -/
theorem complement_low (b : Nat) : (b ^^^ 0xffffffff) &&& 0xffff = 65535 - b % 65536 := by
  have hmod : (b ^^^ 0xffffffff) &&& 0xffff = (b % 2 ^ 16) ^^^ 65535 := by
    rw [Nat.and_two_pow_sub_one_eq_mod _ 16, Nat.xor_mod_two_pow]
  have hnot : ((BitVec.ofNat 16 b) ^^^ BitVec.allOnes 16).toNat = 65535 - b % 65536 := by
    rw [BitVec.xor_allOnes, BitVec.toNat_not, BitVec.toNat_ofNat]
  rw [hmod, ← hnot, BitVec.toNat_xor, BitVec.toNat_ofNat]
  rfl

theorem storedLoop_spec {r : List Bool} :
    ∀ (data : List UInt8) {inp : Inbuf} {o : Slide} {t : List UInt8}, inp.Holds (ofBytes data ++ r) →
      o.Represents t → o.outcnt < wsize →
      ∃ inp' o', storedLoop data.length ⟨inp, o⟩ = .ok ⟨inp', o'⟩ ∧ inp'.Holds r ∧
        o'.Represents (Lz77.expand t (data.map .literal)) ∧ o'.outcnt < wsize ∧ inp'.input = inp.input := by
  intro data
  induction data with
  | nil => exact fun h ho hroom => ⟨_, _, rfl, h, ho, hroom, rfl⟩
  | cons c data ih =>
      intro inp o t h ho hroom
      rw [ofBytes_cons, List.append_assoc] at h
      have hlen : 8 ≤ (bits 8 c.toNat ++ (ofBytes data ++ r)).length := by
        rw [List.length_append, length_bits]
        exact Nat.le_add_right _ _
      obtain ⟨inp₁, hneed, hholds, hbk, -, hinput₁⟩ := Inbuf.needbits_spec h (by decide) hlen
      have hbyte : inp₁.bb % 2 ^ 8 = c.toNat := by
        have hpeek := Inbuf.peek_eq hholds (by decide) hbk
        rw [Inbuf.peek, Inbuf.maskBits_eq (by decide), Nat.and_two_pow_sub_one_eq_mod, value_append, length_bits,
          value_bits_byte, Nat.add_mul_mod_self_left] at hpeek
        rw [hpeek]
        exact Nat.mod_eq_of_lt c.toNat_lt
      have hput : UInt8.ofNat inp₁.bb = c := by
        apply UInt8.toNat_inj.mp
        rw [UInt8.toNat_ofNat']
        exact hbyte
      have hdump := Inbuf.dumpbits_spec hholds hbk
      rw [List.drop_left' (length_bits 8 c.toNat)] at hdump
      obtain ⟨hrep, hroom'⟩ := putByte_spec ho hroom c
      obtain ⟨inp', o', hrun, hholds', hrep', hroom'', hinput⟩ := ih hdump hrep hroom'
      refine ⟨inp', o', ?_, hholds', hrep', hroom'', hinput.trans hinput₁⟩
      rw [List.length_cons, storedLoop, hneed, ← hrun, ← hput]
      rfl

/-- A stored block, for a rest that begins at a byte. -/
theorem inflateStored_spec {pad : List Bool} {data : List UInt8} {r : List Bool} {inp : Inbuf} {o : Slide}
    {t : List UInt8} (hpad : pad.length < 8) (hdata : data.length < 65536) (hr : r.length % 8 = 0)
    (h : inp.Holds (pad ++ (bits 16 data.length ++ (bits 16 (65535 - data.length) ++ (ofBytes data ++ r)))))
    (ho : o.Represents t) (hroom : o.outcnt < wsize) :
    ∃ inp' o', inflateStored ⟨inp, o⟩ = .ok (0, ⟨inp', o'⟩) ∧ inp'.Holds r ∧
      o'.Represents (Lz77.expand t (data.map .literal)) ∧ o'.outcnt < wsize ∧ inp'.input = inp.input := by
  have hbk : inp.bk &&& 7 = pad.length := by
    have hlen := h.length
    simp only [List.length_append, length_bits, length_ofBytes] at hlen
    rw [Nat.and_two_pow_sub_one_eq_mod inp.bk 3]
    omega
  have hpadle : pad.length ≤ inp.bk := hbk ▸ Nat.and_le_left
  have hbyte := Inbuf.dumpbits_spec h hpadle
  rw [List.drop_left] at hbyte
  obtain ⟨inp₁, hrun₁, hholds₁, hinput₁⟩ := takeBits_append hbyte (by decide) hdata
  have hlen₁ : 16 ≤ (bits 16 (65535 - data.length) ++ (ofBytes data ++ r)).length := by
    rw [List.length_append, length_bits]
    exact Nat.le_add_right _ _
  obtain ⟨inp₂, hneed, hholds₂, hbk₂, -, hinput₂⟩ := Inbuf.needbits_spec hholds₁ (by decide) hlen₁
  have hcomp : (inp₂.bb ^^^ 0xffffffff) &&& 0xffff = data.length := by
    have hpeek := Inbuf.peek_eq hholds₂ (by decide) hbk₂
    rw [Inbuf.peek, Inbuf.maskBits_eq (by decide), Nat.and_two_pow_sub_one_eq_mod, value_append, length_bits, value_bits,
      Nat.add_mul_mod_self_left, Nat.mod_mod] at hpeek
    have hlow : inp₂.bb % 65536 = (65535 - data.length) % 65536 := hpeek
    rw [complement_low, hlow]
    omega
  have hdump := Inbuf.dumpbits_spec hholds₂ hbk₂
  rw [List.drop_left' (length_bits _ _)] at hdump
  obtain ⟨inp', o', hrun, hholds, hrep, hroom', hinput⟩ := storedLoop_spec data hdump ho hroom
  refine ⟨inp', o', ?_, hholds, hrep, hroom', hinput.trans (hinput₂.trans hinput₁)⟩
  rw [inflateStored]
  show (takeBits 16 (inp.dumpbits (inp.bk &&& 7)) >>= _) = _
  rw [hbk, hrun₁]
  show (inp₁.needbits 16 >>= _) = _
  rw [hneed]
  show (if data.length ≠ (inp₂.bb ^^^ 0xffffffff) &&& 0xffff then _ else _) = _
  rw [hcomp, if_neg (not_not.mpr rfl)]
  show (storedLoop data.length ⟨inp₂.dumpbits 16, o⟩ >>= _) = _
  rw [hrun]
  rfl

/-! ### The fixed codes -/

theorem fixedLiteral_usable : Usable fixedLiteral := Or.inl (by decide +kernel)

theorem fixedLiteral_le : ∀ x ∈ fixedLiteral, x ≤ 9 := by decide +kernel

theorem fixedDistance_le : ∀ x ∈ fixedDistance, x ≤ 5 := by decide

/-- The tables of `inflate_fixed`; the distance code is incomplete, which `inflate_fixed` lets pass. -/
theorem fixed_coding (memory : Memory) (inp : Inbuf) :
    (huftBuild (memory inp 0) fixedLiteral 257 cplens cplext 7).code = 0 ∧
      (huftBuild (memory inp 1) fixedDistance 0 cpdist cpdext 5).code ≤ 1 ∧
      Coding (huftBuild (memory inp 0) fixedLiteral 257 cplens cplext 7).tables
        (huftBuild (memory inp 1) fixedDistance 0 cpdist cpdext 5).tables
        (huftBuild (memory inp 0) fixedLiteral 257 cplens cplext 7).bits
        (huftBuild (memory inp 1) fixedDistance 0 cpdist cpdext 5).bits fixedLiteral fixedDistance := by
  have hl : ∀ x ∈ fixedLiteral, x ≤ bmax := fun x hx => (fixedLiteral_le x hx).trans (by decide)
  have hd : ∀ x ∈ fixedDistance, x ≤ bmax := fun x hx => (fixedDistance_le x hx).trans (by decide)
  have hcode : (huftBuild (memory inp 0) fixedLiteral 257 cplens cplext 7).code = 0 :=
    huftBuild_code_zero hl fixedLiteral_usable
  have hcode' : (huftBuild (memory inp 1) fixedDistance 0 cpdist cpdext 5).code = 1 := by
    rw [huftBuild_code hd]
    decide +kernel
  have hllen : fixedLiteral.length = 288 := by decide +kernel
  refine ⟨hcode, hcode'.le, ?_, ?_⟩
  · apply huftBuild_decodes _ hl hllen.le (by rw [hcode]; decide)
    · exact Or.inl fun x hx => (fixedLiteral_le x hx).trans_lt (by decide)
    · intro sym hle hsym
      rw [hllen] at hsym
      exact ⟨show sym - 257 < 31 by omega, show sym - 257 < 31 by omega⟩
  · apply huftBuild_decodes _ hd (by decide) (by rw [hcode']; decide)
    · exact Or.inl fun x hx => (fixedDistance_le x hx).trans_lt (by decide)
    · intro sym _ hsym
      have hsym' : sym < 30 := hsym
      exact ⟨show sym - 0 < 30 by omega, show sym - 0 < 30 by omega⟩

theorem inflateFixed_spec (memory : Memory) {symbols : List Symbol} {r : List Bool} {inp : Inbuf} {o : Slide}
    {t : List UInt8} (hlen : 32 ≤ r.length) (hvalid : ∀ x ∈ symbols, x.Valid fixedLiteral fixedDistance)
    (h : inp.Holds (codedBits fixedLiteral fixedDistance symbols ++ r)) (ho : o.Represents t)
    (hroom : o.outcnt < wsize) :
    ∃ inp' o', inflateFixed memory ⟨inp, o⟩ = .ok (0, ⟨inp', o'⟩) ∧ inp'.Holds r ∧
      o'.Represents (Lz77.expand t (symbols.map Symbol.item)) ∧ o'.outcnt < wsize ∧ inp'.input = inp.input := by
  obtain ⟨hcode, hcode', hcoding⟩ := fixed_coding memory inp
  have hend : fixedLiteral.getD 256 0 ≠ 0 := by decide +kernel
  obtain ⟨inp', o', hrun, hholds, hrep, hroom', hinput⟩ := inflateCodes_spec hcoding hend hlen hvalid h ho hroom
  refine ⟨inp', o', ?_, hholds, hrep, hroom', hinput⟩
  rw [inflateFixed]
  dsimp only
  rw [if_neg (not_not.mpr hcode), if_neg (Nat.not_lt.mpr hcode'), hrun]
  rfl

end Cromwell.Gzip
