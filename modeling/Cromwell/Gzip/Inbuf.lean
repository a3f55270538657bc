/-
Module: Cromwell.Gzip.Inbuf
Layer: Model
Purpose: The input side of `lib/gzip/inflate.c` and `misc.c`: the input buffer behind `get_byte` and the bit buffer
  behind `NEEDBITS` and `DUMPBITS`. The functions of the source work on local copies of `bb` and `bk` and write them
  back when all is well; the copies are the fields here, since nothing reads them again after an early return. The
  bit buffer always holds the next bits of one bit string, the bits of the bytes that are left.
Imports: Cromwell.Lib.BitString, Cromwell.Lib.ByteMemory
Trusted boundary: reviewed against src/lib/gzip/inflate.c and src/lib/gzip/misc.c
Main exports: Halt, Inbuf, Inbuf.getByte, Inbuf.needbits, Inbuf.dumpbits, Inbuf.peek, Inbuf.Holds,
  Inbuf.needbits_spec, Inbuf.dumpbits_spec, Inbuf.peek_eq
-/
import Cromwell.Lib.BitString
import Cromwell.Lib.ByteMemory

namespace Cromwell.Gzip

open BitString

/-- Why the decompressor never returns: `error` loops for ever, a table is looked up through a null pointer, or a
    loop of the source does not end. -/
inductive Halt where
  | error (text : String)
  | nullTable
  | endless
deriving DecidableEq, Repr

theorem ok_bind {α β : Type} (a : α) (f : α → Except Halt β) : (Except.ok a >>= f) = f a := rfl

theorem error_bind {α β : Type} (e : Halt) (f : α → Except Halt β) : (Except.error e >>= f) = .error e := rfl

/-- The statics of the input side: `input_data[0..input_len)`, `insize`, `inptr`, `bb` and `bk`. -/
structure Inbuf where
  input : List UInt8
  insize : Nat
  inptr : Nat
  bb : Nat
  bk : Nat
deriving DecidableEq, Repr

/-- `mask_bits[]`. -/
def maskBits : List Nat :=
  [0x0000, 0x0001, 0x0003, 0x0007, 0x000f, 0x001f, 0x003f, 0x007f, 0x00ff,
    0x01ff, 0x03ff, 0x07ff, 0x0fff, 0x1fff, 0x3fff, 0x7fff, 0xffff]

namespace Inbuf

/-- `fill_inbuf`. -/
def fillInbuf (s : Inbuf) : Except Halt (UInt8 × Inbuf) :=
  if s.insize ≠ 0 then .error (.error "ran out of input data\n")
  else .ok (s.input.getD 0 0, { s with insize := s.input.length, inptr := 1 })

/-- `get_byte()`. -/
def getByte (s : Inbuf) : Except Halt (UInt8 × Inbuf) :=
  if s.inptr < s.insize then .ok (s.input.getD s.inptr 0, { s with inptr := s.inptr + 1 })
  else s.fillInbuf

/-- `b|=((ulg)NEXTBYTE())<<k;k+=8;`. -/
def shiftIn (s : Inbuf) (c : UInt8) : Inbuf :=
  { s with bb := s.bb ||| ByteMemory.u32 (c.toNat <<< s.bk), bk := s.bk + 8 }

/-- The loop of `NEEDBITS`; `n` rounds are always enough. -/
def needbitsLoop (n : Nat) : Nat → Inbuf → Except Halt Inbuf
  | 0, s => .ok s
  | rounds + 1, s =>
      if s.bk < n then do
        let (c, s) ← s.getByte
        needbitsLoop n rounds (s.shiftIn c)
      else .ok s

/-- `NEEDBITS(n)`. -/
def needbits (n : Nat) (s : Inbuf) : Except Halt Inbuf := needbitsLoop n n s

/-- `DUMPBITS(n)`. -/
def dumpbits (n : Nat) (s : Inbuf) : Inbuf :=
  { s with bb := s.bb >>> n, bk := ByteMemory.sub32 s.bk n }

/-- `b & mask_bits[n]`. -/
def peek (n : Nat) (s : Inbuf) : Nat := s.bb &&& maskBits.getD n 0

/-! ### What the bit buffer stands for -/

/-- The bit string that is still to be read. -/
structure Holds (s : Inbuf) (r : List Bool) : Prop where
  size : s.insize = s.input.length
  ptr : s.inptr ≤ s.input.length
  room : s.bk < 24
  read : s.bk ≤ 8 * s.inptr
  buffer : s.bb < 2 ^ s.bk
  rest : r = bits s.bk s.bb ++ ofBytes (s.input.drop s.inptr)

namespace Holds

variable {s : Inbuf} {r : List Bool}

theorem length (h : s.Holds r) : r.length = s.bk + 8 * (s.input.length - s.inptr) := by
  rw [h.rest, List.length_append, length_bits, length_ofBytes, List.length_drop]

/-- What is left is never more than the whole input. -/
theorem length_le (h : s.Holds r) : r.length ≤ 8 * s.input.length := by
  have hlen := h.length
  have hptr := h.ptr
  have hread := h.read
  omega

/-- The buffer is the low end of what is left. -/
theorem value_eq (h : s.Holds r) :
    value r = s.bb + 2 ^ s.bk * value (ofBytes (s.input.drop s.inptr)) := by
  rw [h.rest, value_append, length_bits, value_bits, Nat.mod_eq_of_lt h.buffer]

/-- As long as bits are missing there is a byte to read. -/
theorem lt_of_short {n : Nat} (h : s.Holds r) (hn : n ≤ r.length) (hk : s.bk < n) :
    s.inptr < s.input.length := by
  have hlen := h.length
  omega

end Holds

/-! ### Reading -/

theorem getByte_of_lt {s : Inbuf} (h : s.inptr < s.insize) :
    s.getByte = .ok (s.input.getD s.inptr 0, { s with inptr := s.inptr + 1 }) := if_pos h

theorem shiftIn_bb {s : Inbuf} {c : UInt8} (hbb : s.bb < 2 ^ s.bk) (hbk : s.bk < 24) :
    (s.shiftIn c).bb = s.bb + 2 ^ s.bk * c.toNat := by
  have hfit : c.toNat <<< s.bk < 2 ^ 32 := by
    have hc : c.toNat < 2 ^ 8 := c.toNat_lt
    calc c.toNat <<< s.bk = c.toNat * 2 ^ s.bk := Nat.shiftLeft_eq _ _
      _ < 2 ^ 8 * 2 ^ 24 := Nat.mul_lt_mul_of_lt_of_le hc (Nat.pow_le_pow_right (by decide) hbk.le) (by positivity)
      _ = 2 ^ 32 := by norm_num
  calc (s.shiftIn c).bb = s.bb ||| c.toNat <<< s.bk := by rw [shiftIn, ByteMemory.u32_of_lt hfit]
    _ = c.toNat <<< s.bk + s.bb := by rw [Nat.lor_comm, Nat.shiftLeft_add_eq_or_of_lt hbb]
    _ = s.bb + 2 ^ s.bk * c.toNat := by rw [Nat.shiftLeft_eq]; ring

theorem shiftIn_lt {s : Inbuf} {c : UInt8} (hbb : s.bb < 2 ^ s.bk) (hbk : s.bk < 24) :
    (s.shiftIn c).bb < 2 ^ (s.bk + 8) := by
  have hc : c.toNat < 2 ^ 8 := c.toNat_lt
  calc (s.shiftIn c).bb = s.bb + 2 ^ s.bk * c.toNat := shiftIn_bb hbb hbk
    _ < 2 ^ s.bk + 2 ^ s.bk * c.toNat := Nat.add_lt_add_right hbb _
    _ = 2 ^ s.bk * (c.toNat + 1) := by ring
    _ ≤ 2 ^ s.bk * 2 ^ 8 := Nat.mul_le_mul_left _ hc
    _ = 2 ^ (s.bk + 8) := (pow_add 2 s.bk 8).symm

/-- As bit strings: the byte stands behind the buffer. -/
theorem bits_shiftIn {s : Inbuf} {c : UInt8} (hbb : s.bb < 2 ^ s.bk) (hbk : s.bk < 24) :
    bits (s.shiftIn c).bk (s.shiftIn c).bb = bits s.bk s.bb ++ bits 8 c.toNat := by
  apply value_injective
  · rw [length_bits, List.length_append, length_bits, length_bits]
    rfl
  · have hlt : (s.shiftIn c).bb < 2 ^ (s.shiftIn c).bk := shiftIn_lt hbb hbk
    rw [value_bits, Nat.mod_eq_of_lt hlt, shiftIn_bb hbb hbk, value_append, value_bits, value_bits_byte,
      length_bits, Nat.mod_eq_of_lt hbb]

/-- The next byte goes on top of the buffer and changes nothing in what is left to read. -/
theorem shiftIn_holds {s : Inbuf} {r : List Bool} (h : s.Holds r) (hptr : s.inptr < s.input.length)
    (hk : s.bk < 16) :
    (({ s with inptr := s.inptr + 1 } : Inbuf).shiftIn (s.input.getD s.inptr 0)).Holds r := by
  have hbyte : s.input.getD s.inptr 0 = s.input[s.inptr] := List.getD_eq_getElem _ _ hptr
  constructor
  · exact h.size
  · exact hptr
  · have hbk : s.bk + 8 < 24 := by omega
    exact hbk
  · have hread := h.read
    have hnext : s.bk + 8 ≤ 8 * (s.inptr + 1) := by omega
    exact hnext
  · exact shiftIn_lt (s := { s with inptr := s.inptr + 1 }) h.buffer h.room
  · calc r = bits s.bk s.bb ++ ofBytes (s.input.drop s.inptr) := h.rest
      _ = bits s.bk s.bb ++ (bits 8 (s.input.getD s.inptr 0).toNat ++ ofBytes (s.input.drop (s.inptr + 1))) := by
        rw [List.drop_eq_getElem_cons hptr, ofBytes_cons, hbyte]
      _ = (bits s.bk s.bb ++ bits 8 (s.input.getD s.inptr 0).toNat) ++ ofBytes (s.input.drop (s.inptr + 1)) := by
        rw [List.append_assoc]
      _ = _ := by rw [← bits_shiftIn (s := { s with inptr := s.inptr + 1 }) h.buffer h.room]; rfl

theorem needbitsLoop_spec {n : Nat} (hn : n ≤ 16) :
    ∀ (rounds : Nat) {s : Inbuf} {r : List Bool}, s.Holds r → n ≤ r.length → n ≤ s.bk + 8 * rounds →
      ∃ s', needbitsLoop n rounds s = .ok s' ∧ s'.Holds r ∧ n ≤ s'.bk ∧ (s'.bk < n + 8 ∨ s'.bk = s.bk) ∧
        s'.input = s.input := by
  intro rounds
  induction rounds with
  | zero =>
      intro s r h _ henough
      exact ⟨s, rfl, h, by omega, Or.inr rfl, rfl⟩
  | succ rounds ih =>
      intro s r h hlen henough
      by_cases hk : s.bk < n
      · have hptr : s.inptr < s.input.length := h.lt_of_short hlen hk
        have hget : s.getByte = .ok (s.input.getD s.inptr 0, { s with inptr := s.inptr + 1 }) :=
          getByte_of_lt (h.size ▸ hptr)
        have hnext := shiftIn_holds h hptr (by omega)
        obtain ⟨s', hrun, hholds, hbk, hroom, hinput⟩ :=
          ih hnext hlen (show n ≤ s.bk + 8 + 8 * rounds by omega)
        have hroom' : s'.bk < n + 8 ∨ s'.bk = s.bk + 8 := hroom
        refine ⟨s', ?_, hholds, hbk, Or.inl (by omega), hinput⟩
        rw [needbitsLoop, if_pos hk, hget]
        exact hrun
      · exact ⟨s, by rw [needbitsLoop, if_neg hk], h, by omega, Or.inr rfl, rfl⟩

/-- `NEEDBITS(n)` finds `n` bits in the buffer if there are that many left, and reads no byte too many. -/
theorem needbits_spec {n : Nat} {s : Inbuf} {r : List Bool} (h : s.Holds r) (hn : n ≤ 16) (hlen : n ≤ r.length) :
    ∃ s', needbits n s = .ok s' ∧ s'.Holds r ∧ n ≤ s'.bk ∧ (s'.bk < n + 8 ∨ s'.bk = s.bk) ∧
      s'.input = s.input :=
  needbitsLoop_spec hn n h hlen (by omega)

theorem maskBits_eq {n : Nat} (h : n ≤ 16) : maskBits.getD n 0 = 2 ^ n - 1 := by
  interval_cases n <;> rfl

/-- The low bits of the buffer are the next bits of what is left. -/
theorem peek_eq {n : Nat} {s : Inbuf} {r : List Bool} (h : s.Holds r) (hn : n ≤ 16) (hk : n ≤ s.bk) :
    s.peek n = value r % 2 ^ n := by
  obtain ⟨d, hd⟩ : ∃ d, s.bk = n + d := ⟨s.bk - n, by omega⟩
  rw [peek, maskBits_eq hn, Nat.and_two_pow_sub_one_eq_mod, h.value_eq, hd, pow_add, Nat.mul_assoc,
    Nat.add_mul_mod_self_left]

/-- `DUMPBITS(n)` goes on by `n` bits. -/
theorem dumpbits_spec {n : Nat} {s : Inbuf} {r : List Bool} (h : s.Holds r) (hk : n ≤ s.bk) :
    (s.dumpbits n).Holds (r.drop n) := by
  have hbk : (s.dumpbits n).bk = s.bk - n := ByteMemory.sub32_of_le hk (by have := h.room; omega)
  have hbb : (s.dumpbits n).bb = s.bb / 2 ^ n := Nat.shiftRight_eq_div_pow _ _
  have hpow : 2 ^ s.bk = 2 ^ n * 2 ^ (s.bk - n) := by rw [← pow_add, Nat.add_sub_cancel' hk]
  have hlt : s.bb / 2 ^ n < 2 ^ (s.bk - n) := by
    apply Nat.div_lt_of_lt_mul
    rw [← hpow]
    exact h.buffer
  constructor
  · exact h.size
  · exact h.ptr
  · have hroom := h.room
    rw [hbk]
    omega
  · have hread := h.read
    rw [hbk]
    exact (Nat.sub_le _ _).trans hread
  · rw [hbb, hbk]
    exact hlt
  · have hdrop : (bits s.bk s.bb).drop n = bits (s.bk - n) (s.bb / 2 ^ n) := by
      apply value_injective
      · rw [List.length_drop, length_bits, length_bits]
      · rw [value_drop (by rw [length_bits]; exact hk), value_bits, value_bits, Nat.mod_eq_of_lt h.buffer,
          Nat.mod_eq_of_lt hlt]
    rw [h.rest, List.drop_append_of_le_length (by rw [length_bits]; exact hk), hdrop, hbb, hbk]
    rfl

end Inbuf

end Cromwell.Gzip
