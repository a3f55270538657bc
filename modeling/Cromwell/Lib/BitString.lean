/-
Module: Cromwell.Lib.BitString
Layer: Lib
Purpose: Bit strings in the order in which a stream delivers them, least significant bit of a byte first, their
  values, and the reversal of a number of a fixed width that turns a code word into such a value.
Imports: Mathlib
Trusted boundary: none
Main exports: value, bits, ofBytes, reversed, value_append, value_take, value_drop, value_bits, reversed_split,
  value_reverse, reversed_mod, reversed_aligned
-/
import Mathlib

namespace BitString

/-- The number a bit string stands for, least significant bit first. -/
def value : List Bool → Nat
  | [] => 0
  | b :: l => b.toNat + 2 * value l

/-- The low `n` bits of `v`, least significant bit first. -/
def bits : Nat → Nat → List Bool
  | 0, _ => []
  | n + 1, v => (v % 2 == 1) :: bits n (v / 2)

/-- The bits of a byte string. -/
def ofBytes (l : List UInt8) : List Bool := l.flatMap fun b => bits 8 b.toNat

/-- The low `g` bits of `n` in the opposite order. -/
def reversed : Nat → Nat → Nat
  | 0, _ => 0
  | g + 1, n => (n % 2) * 2 ^ g + reversed g (n / 2)

/-! ### Values -/

@[simp]
theorem value_nil : value [] = 0 := rfl

@[simp]
theorem length_bits (n v : Nat) : (bits n v).length = n := by
  induction n generalizing v with
  | zero => rfl
  | succ n ih => rw [bits, List.length_cons, ih]

theorem value_append (l m : List Bool) : value (l ++ m) = value l + 2 ^ l.length * value m := by
  induction l with
  | nil => simp [value]
  | cons b l ih =>
      rw [List.cons_append, value, ih, value, List.length_cons, Nat.pow_succ]
      ring

theorem value_lt (l : List Bool) : value l < 2 ^ l.length := by
  induction l with
  | nil => simp [value]
  | cons b l ih =>
      have hb : b.toNat ≤ 1 := Bool.toNat_le b
      rw [value, List.length_cons, Nat.pow_succ]
      omega

theorem value_bits (n v : Nat) : value (bits n v) = v % 2 ^ n := by
  induction n generalizing v with
  | zero => simp [bits, Nat.mod_one]
  | succ n ih =>
      have hbit : (v % 2 == 1).toNat = v % 2 := by
        rcases Nat.mod_two_eq_zero_or_one v with h | h <;> rw [h] <;> rfl
      rw [bits, value, ih, hbit, Nat.pow_succ, Nat.mul_comm (2 ^ n) 2, Nat.mod_mul]

theorem bits_value (l : List Bool) : bits l.length (value l) = l := by
  induction l with
  | nil => rfl
  | cons b l ih =>
      have hlow : (b.toNat + 2 * value l) % 2 = b.toNat := by
        have hb : b.toNat ≤ 1 := Bool.toNat_le b
        omega
      have hhigh : (b.toNat + 2 * value l) / 2 = value l := by
        have hb : b.toNat ≤ 1 := Bool.toNat_le b
        omega
      rw [List.length_cons, bits, value, hlow, hhigh, ih]
      cases b <;> rfl

/-- Two bit strings of one length with one value are the same. -/
theorem value_injective {l m : List Bool} (hlen : l.length = m.length) (h : value l = value m) : l = m := by
  rw [← bits_value l, ← bits_value m, hlen, h]

theorem value_split (l : List Bool) (n : Nat) :
    value l = value (l.take n) + 2 ^ (l.take n).length * value (l.drop n) := by
  rw [← value_append, List.take_append_drop]

theorem value_take {l : List Bool} {n : Nat} (h : n ≤ l.length) : value (l.take n) = value l % 2 ^ n := by
  have hlen : (l.take n).length = n := List.length_take_of_le h
  have hlt : value (l.take n) < 2 ^ n := (value_lt (l.take n)).trans_eq (by rw [hlen])
  rw [value_split l n, hlen, Nat.add_mul_mod_self_left, Nat.mod_eq_of_lt hlt]

theorem value_drop {l : List Bool} {n : Nat} (h : n ≤ l.length) : value (l.drop n) = value l / 2 ^ n := by
  have hlen : (l.take n).length = n := List.length_take_of_le h
  have hlt : value (l.take n) < 2 ^ n := (value_lt (l.take n)).trans_eq (by rw [hlen])
  rw [value_split l n, hlen, Nat.add_mul_div_left _ _ (Nat.two_pow_pos n), Nat.div_eq_of_lt hlt, Nat.zero_add]

/-! ### Bytes -/

@[simp]
theorem ofBytes_nil : ofBytes [] = [] := rfl

@[simp]
theorem ofBytes_cons (b : UInt8) (l : List UInt8) : ofBytes (b :: l) = bits 8 b.toNat ++ ofBytes l := rfl

theorem ofBytes_append (l m : List UInt8) : ofBytes (l ++ m) = ofBytes l ++ ofBytes m := List.flatMap_append

@[simp]
theorem length_ofBytes (l : List UInt8) : (ofBytes l).length = 8 * l.length := by
  induction l with
  | nil => rfl
  | cons b l ih =>
      rw [ofBytes_cons, List.length_append, length_bits, ih, List.length_cons]
      ring

theorem value_bits_byte (b : UInt8) : value (bits 8 b.toNat) = b.toNat := by
  rw [value_bits]
  exact Nat.mod_eq_of_lt b.toNat_lt

/-- A byte string is determined by its bits. -/
theorem ofBytes_injective {l m : List UInt8} (h : ofBytes l = ofBytes m) : l = m := by
  induction l generalizing m with
  | nil =>
      cases m with
      | nil => rfl
      | cons b m =>
          have hlen := congrArg List.length h
          rw [length_ofBytes, length_ofBytes, List.length_nil, List.length_cons] at hlen
          omega
  | cons b l ih =>
      cases m with
      | nil =>
          have hlen := congrArg List.length h
          rw [length_ofBytes, length_ofBytes, List.length_nil, List.length_cons] at hlen
          omega
      | cons c m =>
          rw [ofBytes_cons, ofBytes_cons] at h
          obtain ⟨hhead, htail⟩ := List.append_inj h (by rw [length_bits, length_bits])
          have hbyte : b.toNat = c.toNat := by rw [← value_bits_byte b, hhead, value_bits_byte]
          rw [UInt8.toNat_inj.mp hbyte, ih htail]

/-! ### Reversal -/

theorem reversed_lt (g n : Nat) : reversed g n < 2 ^ g := by
  induction g generalizing n with
  | zero => simp [reversed]
  | succ g ih =>
      have hrest := ih (n / 2)
      rcases Nat.mod_two_eq_zero_or_one n with h | h <;> rw [reversed, h, Nat.pow_succ] <;> omega

@[simp]
theorem reversed_zero (g : Nat) : reversed g 0 = 0 := by
  induction g with
  | zero => rfl
  | succ g ih => rw [reversed, Nat.zero_mod, Nat.zero_div, ih, Nat.zero_mul]

/-- The low part of a number becomes the high part of its reversal. -/
theorem reversed_split {w d n m : Nat} (hn : n < 2 ^ w) :
    reversed (w + d) (n + 2 ^ w * m) = reversed w n * 2 ^ d + reversed d m := by
  induction w generalizing n with
  | zero =>
      have hzero : n = 0 := by
        rw [Nat.pow_zero] at hn
        omega
      subst hzero
      simp [reversed]
  | succ w ih =>
      have hlow : (n + 2 ^ (w + 1) * m) % 2 = n % 2 := by
        rw [Nat.pow_succ, show 2 ^ w * 2 * m = 2 * (2 ^ w * m) by ring, Nat.add_mul_mod_self_left]
      have hhigh : (n + 2 ^ (w + 1) * m) / 2 = n / 2 + 2 ^ w * m := by
        rw [Nat.pow_succ, show 2 ^ w * 2 * m = 2 * (2 ^ w * m) by ring,
          Nat.add_mul_div_left _ _ (by decide : 0 < 2)]
      have hhalf : n / 2 < 2 ^ w := by
        rw [Nat.pow_succ] at hn
        omega
      rw [show w + 1 + d = (w + d) + 1 by ring, reversed, hlow, hhigh, ih hhalf, reversed, pow_add]
      ring

/-- The last bit of a code word is the first bit of the value of its reversal. -/
theorem reversed_succ_even {k v : Nat} (h : v % 2 = 0) : reversed (k + 1) v = reversed k (v / 2) := by
  rw [reversed, h, Nat.zero_mul, Nat.zero_add]

theorem reversed_succ_odd {k v : Nat} (h : v % 2 = 1) : reversed (k + 1) v = 2 ^ k + reversed k (v / 2) := by
  rw [reversed, h, Nat.one_mul]

/-- Reading a bit string backwards reverses its value. -/
theorem value_reverse (k v : Nat) : value (bits k v).reverse = reversed k v := by
  induction k generalizing v with
  | zero => rfl
  | succ k ih =>
      have hbit : value [v % 2 == 1] = v % 2 := by
        rcases Nat.mod_two_eq_zero_or_one v with h | h <;> rw [h] <;> rfl
      rw [bits, List.reverse_cons, value_append, ih, List.length_reverse, length_bits, hbit, reversed]
      ring

theorem reversed_reversed (k : Nat) {v : Nat} (h : v < 2 ^ k) : reversed k (reversed k v) = v := by
  induction k generalizing v with
  | zero =>
      rw [Nat.pow_zero] at h
      rw [reversed]
      omega
  | succ k ih =>
      have hhalf : v / 2 < 2 ^ k := by
        rw [Nat.pow_succ] at h
        omega
      have hsplit : reversed (k + 1) (reversed k (v / 2) + 2 ^ k * (v % 2)) =
          reversed k (reversed k (v / 2)) * 2 ^ 1 + reversed 1 (v % 2) := reversed_split (reversed_lt k _)
      have hone : reversed 1 (v % 2) = v % 2 := by
        rcases Nat.mod_two_eq_zero_or_one v with h | h <;> rw [h] <;> rfl
      calc reversed (k + 1) (reversed (k + 1) v)
          = reversed (k + 1) (reversed k (v / 2) + 2 ^ k * (v % 2)) := by
            conv_lhs => rw [reversed.eq_2 v k]
            congr 1
            ring
        _ = v / 2 * 2 ^ 1 + v % 2 := by rw [hsplit, ih hhalf, hone]
        _ = v := by omega

/-- The high bits of a number are the low bits of its reversal. -/
theorem reversed_mod (A : Nat) {g w : Nat} (h : w ≤ g) :
    reversed g A % 2 ^ w = reversed w (A / 2 ^ (g - w)) := by
  have hsplit : reversed (g - w + w) (A % 2 ^ (g - w) + 2 ^ (g - w) * (A / 2 ^ (g - w))) =
      reversed (g - w) (A % 2 ^ (g - w)) * 2 ^ w + reversed w (A / 2 ^ (g - w)) :=
    reversed_split (Nat.mod_lt _ (Nat.two_pow_pos _))
  rw [Nat.mod_add_div, Nat.sub_add_cancel h] at hsplit
  rw [hsplit, Nat.mul_comm, Nat.mul_add_mod, Nat.mod_eq_of_lt (reversed_lt _ _)]

/-- The zeros at the low end of a number do not matter. -/
theorem reversed_aligned {A g k : Nat} (hk : k ≤ g) (h : 2 ^ (g - k) ∣ A) :
    reversed g A = reversed k (A / 2 ^ (g - k)) := by
  obtain ⟨V, rfl⟩ := h
  have hsplit : reversed (g - k + k) (0 + 2 ^ (g - k) * V) = reversed (g - k) 0 * 2 ^ k + reversed k V :=
    reversed_split (Nat.two_pow_pos _)
  rw [Nat.sub_add_cancel hk, Nat.zero_add, reversed_zero, Nat.zero_mul, Nat.zero_add] at hsplit
  rw [hsplit, Nat.mul_div_cancel_left _ (Nat.two_pow_pos _)]

end BitString
