/-
Module: Cromwell.Lib.Crc
Layer: Lib
Purpose: Cyclic redundancy checks in the reflected form, over any width and generator: one register shift for each
  bit of the message, the table that does eight of them at once, and what a check of this kind always detects.
Imports: Cromwell.Lib.BitString
Trusted boundary: none
Main exports: shift, shifts, feed, shift_xor, shift_injective, feed_eq_shifts, feed_byte_table, feed_burst
-/
import Cromwell.Lib.BitString

namespace Crc

open BitString

variable {w : Nat} (poly : BitVec w)

/-- One shift of the register: what falls out at the bottom decides about the generator. -/
def shift (c : BitVec w) : BitVec w :=
  if c.getLsbD 0 then (c >>> 1) ^^^ poly else c >>> 1

/-- `n` shifts. -/
def shifts : Nat → BitVec w → BitVec w
  | 0, c => c
  | n + 1, c => shifts n (shift poly c)

/-- A message bit enters at the bottom of the register. -/
def feedBit (c : BitVec w) (b : Bool) : BitVec w := shift poly (c ^^^ BitVec.ofNat w b.toNat)

/-- The register after a message. -/
def feed (c : BitVec w) (l : List Bool) : BitVec w := l.foldl (feedBit poly) c

@[simp]
theorem feed_nil (c : BitVec w) : feed poly c [] = c := rfl

@[simp]
theorem feed_cons (c : BitVec w) (b : Bool) (l : List Bool) :
    feed poly c (b :: l) = feed poly (feedBit poly c b) l := rfl

theorem feed_append (c : BitVec w) (l m : List Bool) : feed poly c (l ++ m) = feed poly (feed poly c l) m :=
  List.foldl_append

/-! ### The shift is linear, and injective for a generator with a constant term -/

theorem shift_eq_xor (c : BitVec w) :
    shift poly c = (c >>> 1) ^^^ (if c.getLsbD 0 then poly else 0#w) := by
  unfold shift
  split
  · rfl
  · rw [BitVec.xor_zero]

theorem shift_xor (a b : BitVec w) : shift poly (a ^^^ b) = shift poly a ^^^ shift poly b := by
  have hmask : (if (a ^^^ b).getLsbD 0 then poly else 0#w) =
      (if a.getLsbD 0 then poly else 0#w) ^^^ (if b.getLsbD 0 then poly else 0#w) := by
    rw [BitVec.getLsbD_xor]
    cases a.getLsbD 0 <;> cases b.getLsbD 0 <;> simp
  rw [shift_eq_xor, shift_eq_xor, shift_eq_xor, hmask, BitVec.ushiftRight_xor_distrib]
  ac_rfl

theorem shifts_xor (n : Nat) (a b : BitVec w) : shifts poly n (a ^^^ b) = shifts poly n a ^^^ shifts poly n b := by
  induction n generalizing a b with
  | zero => rfl
  | succ n ih => rw [shifts, shift_xor, ih, shifts, shifts]

/-- Nothing falls out of a register whose low end is clear. -/
theorem shift_ofNat_double {n : Nat} (h : 2 * n < 2 ^ w) : shift poly (BitVec.ofNat w (2 * n)) = BitVec.ofNat w n := by
  have hlow : (BitVec.ofNat w (2 * n)).getLsbD 0 = false := by
    rw [BitVec.getLsbD_ofNat]
    simp
  rw [shift, hlow]
  apply BitVec.eq_of_toNat_eq
  simp only [Bool.false_eq_true, if_false, BitVec.toNat_ushiftRight, BitVec.toNat_ofNat]
  rw [Nat.mod_eq_of_lt h, Nat.mod_eq_of_lt (by omega), Nat.shiftRight_eq_div_pow]
  omega

/-- Feeding a message bit by bit is adding it to the register and shifting it out. -/
theorem feed_eq_shifts (c : BitVec w) {l : List Bool} (h : l.length ≤ w) :
    feed poly c l = shifts poly l.length (c ^^^ BitVec.ofNat w (value l)) := by
  induction l generalizing c with
  | nil => simp [shifts, value]
  | cons b l ih =>
      have hlen : l.length + 1 ≤ w := h
      have hvalue : 2 * value l < 2 ^ w := by
        have hlt := value_lt l
        have hpow : 2 ^ (l.length + 1) ≤ 2 ^ w := Nat.pow_le_pow_right (by decide) hlen
        rw [Nat.pow_succ] at hpow
        omega
      have hsplit : BitVec.ofNat w (value (b :: l)) = BitVec.ofNat w b.toNat ^^^ BitVec.ofNat w (2 * value l) := by
        apply BitVec.eq_of_getLsbD_eq
        intro i hi
        rw [BitVec.getLsbD_xor, BitVec.getLsbD_ofNat, BitVec.getLsbD_ofNat, BitVec.getLsbD_ofNat, value]
        cases i with
        | zero => cases b <;> simp
        | succ i => cases b <;> simp [Nat.testBit_add_one, Nat.add_div]
      have hstep : feedBit poly c b ^^^ BitVec.ofNat w (value l) =
          shift poly (c ^^^ BitVec.ofNat w (value (b :: l))) := by
        rw [hsplit, ← BitVec.xor_assoc, shift_xor, shift_ofNat_double poly hvalue]
        rfl
      rw [feed_cons, ih _ (by omega), hstep]
      rfl

theorem shift_injective (htop : poly.msb = true) : Function.Injective (shift poly) := by
  intro a b hab
  have hw : 0 < w := by
    cases w with
    | zero => exact absurd htop (by simp [BitVec.msb])
    | succ w => exact Nat.succ_pos w
  have htop' : poly.getLsbD (w - 1) = true := by rwa [BitVec.msb_eq_getLsbD_last] at htop
  -- the highest bit of the result is the bit that fell out
  have hlast (c : BitVec w) : (shift poly c).getLsbD (w - 1) = c.getLsbD 0 := by
    have hgone : (c >>> 1).getLsbD (w - 1) = false := by
      rw [BitVec.getLsbD_ushiftRight]
      exact BitVec.getLsbD_of_ge _ _ (by omega)
    rw [shift_eq_xor, BitVec.getLsbD_xor, hgone, Bool.false_xor]
    cases c.getLsbD 0 <;> simp [htop']
  have hlow : a.getLsbD 0 = b.getLsbD 0 := by rw [← hlast a, ← hlast b, hab]
  have hhigh : a >>> 1 = b >>> 1 := by
    rw [shift_eq_xor, shift_eq_xor, hlow] at hab
    exact (BitVec.xor_left_inj _).mp hab
  apply BitVec.eq_of_getLsbD_eq
  intro i hi
  cases i with
  | zero => exact hlow
  | succ i =>
      have hbit : (a >>> 1).getLsbD i = (b >>> 1).getLsbD i := by rw [hhigh]
      rwa [BitVec.getLsbD_ushiftRight, BitVec.getLsbD_ushiftRight, Nat.add_comm] at hbit

theorem shifts_injective (htop : poly.msb = true) (n : Nat) : Function.Injective (shifts poly n) := by
  induction n with
  | zero => exact fun a b hab => hab
  | succ n ih => exact fun a b hab => shift_injective poly htop (ih hab)

theorem feed_left_injective (htop : poly.msb = true) (l : List Bool) :
    Function.Injective fun c => feed poly c l := by
  induction l with
  | nil => exact fun a b hab => hab
  | cons x l ih =>
      intro a b hab
      have hbit : feedBit poly a x = feedBit poly b x := ih hab
      have hxor := shift_injective poly htop hbit
      exact (BitVec.xor_left_inj _).mp hxor

/-- Two messages that differ only inside a window of at most `w` bits have different remainders. -/
theorem feed_burst (htop : poly.msb = true) (c : BitVec w) (pre post : List Bool) {burst burst' : List Bool}
    (hlen : burst.length = burst'.length) (hw : burst.length ≤ w)
    (h : feed poly c (pre ++ burst ++ post) = feed poly c (pre ++ burst' ++ post)) : burst = burst' := by
  rw [feed_append, feed_append, feed_append, feed_append] at h
  have hburst := feed_left_injective poly htop post h
  have hw' : burst'.length ≤ w := by rwa [← hlen]
  rw [feed_eq_shifts poly _ hw, feed_eq_shifts poly _ hw', ← hlen] at hburst
  have hvalue := (BitVec.xor_right_inj _).mp (shifts_injective poly htop _ hburst)
  have hlt : 2 ^ burst.length ≤ 2 ^ w := Nat.pow_le_pow_right (by decide) hw
  have hb := value_lt burst
  have hb' := value_lt burst'
  rw [← hlen] at hb'
  have hnat := congrArg BitVec.toNat hvalue
  rw [BitVec.toNat_ofNat, BitVec.toNat_ofNat, Nat.mod_eq_of_lt (by omega), Nat.mod_eq_of_lt (by omega)] at hnat
  exact value_injective hlen hnat

/-! ### Eight shifts at once -/

/-- A register whose low `n` bits are clear only moves down. -/
theorem shifts_shiftLeft {n : Nat} (c : BitVec w) :
    ∀ k ≤ n, (∀ i < n, c.getLsbD i = false) → shifts poly k c = c >>> k := by
  intro k
  induction k generalizing n c with
  | zero =>
      intro _ _
      simp [shifts]
  | succ k ih =>
      intro hk hclear
      obtain ⟨n, rfl⟩ : ∃ m, n = m + 1 := ⟨n - 1, by omega⟩
      have hstep : shift poly c = c >>> 1 := by
        rw [shift, hclear 0 (by omega)]
        rfl
      have hnext : ∀ i < n, (c >>> 1).getLsbD i = false := by
        intro i hi
        rw [BitVec.getLsbD_ushiftRight]
        exact hclear (1 + i) (by omega)
      rw [shifts, hstep, ih (c >>> 1) (by omega) hnext, ← BitVec.shiftRight_add, Nat.add_comm 1 k]

/-- Eight bits at once: the low end of the register selects a word that is added to what is above it. -/
theorem feed_byte_table (hw : 8 ≤ w) (c : BitVec w) (b : UInt8) :
    feed poly c (bits 8 b.toNat) =
      shifts poly 8 ((c ^^^ BitVec.ofNat w b.toNat) &&& BitVec.ofNat w 255) ^^^ (c >>> 8) := by
  have hlen : (bits 8 b.toNat).length ≤ w := by rwa [length_bits]
  have hmask (i : Nat) : (BitVec.ofNat w 255).getLsbD i = decide (i < 8) := by
    rw [BitVec.getLsbD_ofNat, show (255 : Nat) = 2 ^ 8 - 1 by norm_num, Nat.testBit_two_pow_sub_one]
    by_cases hi : i < 8
    · simp [hi, show i < w by omega]
    · simp [hi]
  have hbyte (i : Nat) (hi : 8 ≤ i) : (BitVec.ofNat w b.toNat).getLsbD i = false := by
    have hb : b.toNat < 2 ^ i := (UInt8.toNat_lt b).trans_le (Nat.pow_le_pow_right (by decide) hi)
    rw [BitVec.getLsbD_ofNat, Nat.testBit_lt_two_pow hb, Bool.and_false]
  have hsplit : c ^^^ BitVec.ofNat w b.toNat =
      ((c ^^^ BitVec.ofNat w b.toNat) &&& BitVec.ofNat w 255) ^^^ (c &&& ~~~BitVec.ofNat w 255) := by
    apply BitVec.eq_of_getLsbD_eq
    intro i hi
    simp only [BitVec.getLsbD_xor, BitVec.getLsbD_and, BitVec.getLsbD_not, hmask, hi, decide_true, Bool.true_and]
    by_cases h8 : i < 8
    · simp [h8]
    · simp [h8, hbyte i (by omega)]
  have hhigh : shifts poly 8 (c &&& ~~~BitVec.ofNat w 255) = c >>> 8 := by
    rw [shifts_shiftLeft poly (n := 8) _ 8 (by omega)]
    · apply BitVec.eq_of_getLsbD_eq
      intro i hi
      simp only [BitVec.getLsbD_ushiftRight, BitVec.getLsbD_and, BitVec.getLsbD_not, hmask]
      by_cases hin : 8 + i < w
      · simp [hin]
      · simp [BitVec.getLsbD_of_ge c (8 + i) (by omega)]
    · intro i hi
      simp [BitVec.getLsbD_and, hmask, hi]
  have hvalue : value (bits 8 b.toNat) = b.toNat := value_bits_byte b
  rw [feed_eq_shifts poly c hlen, length_bits, hvalue]
  conv_lhs => rw [hsplit, shifts_xor, hhigh]

end Crc
