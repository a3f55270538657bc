/-
Module: Cromwell.Lib.Canonical
Layer: Lib
Purpose: Canonical prefix codes. A code is given by the lengths of its words; the words of one length are consecutive
  numbers, and each length starts where the shorter ones end. Drawn as intervals of `[0, 2^g)` the words lie side by
  side in this order, and the part that is covered up to a length is the mass of the code up to it.
Imports: Cromwell.Lib.BitString
Trusted boundary: none
Main exports: firstCode, mass, lengthCount, kraft, codeWord, firstCode_mass, mass_mono, mass_dvd, mass_double,
  value_codeWord
-/
import Cromwell.Lib.BitString

namespace Canonical

open BitString

section counts

variable (c : Nat → Nat)

/-- The first code word of each length, for `c k` words of length `k`. -/
def firstCode : Nat → Nat
  | 0 => 0
  | k + 1 => 2 * (firstCode k + c k)

/-- The part of `2^g` that the words up to a length cover. -/
def mass (g : Nat) : Nat → Nat
  | 0 => 0
  | k + 1 => mass g k + c (k + 1) * 2 ^ (g - (k + 1))

variable {c}

theorem mass_mono {g k k' : Nat} (h : k ≤ k') : mass c g k ≤ mass c g k' := by
  induction h with
  | refl => exact le_rfl
  | step _ ih => exact ih.trans (Nat.le_add_right _ _)

theorem mass_dvd {g : Nat} : ∀ k, 2 ^ (g - k) ∣ mass c g k := by
  intro k
  induction k with
  | zero => exact dvd_zero _
  | succ k ih =>
      have hpow : 2 ^ (g - (k + 1)) ∣ 2 ^ (g - k) := Nat.pow_dvd_pow 2 (by omega)
      exact (hpow.trans ih).add (Dvd.intro_left _ rfl)

/-- Each length starts where the shorter ones end. -/
theorem firstCode_mass (h0 : c 0 = 0) {g k : Nat} (h : k + 1 ≤ g) :
    firstCode c (k + 1) * 2 ^ (g - (k + 1)) = mass c g k := by
  induction k with
  | zero => simp [firstCode, mass, h0]
  | succ k ih =>
      have hstep := ih (by omega)
      have hpow : 2 ^ (g - (k + 1)) = 2 * 2 ^ (g - (k + 1 + 1)) := by
        rw [← pow_succ']
        congr 1
        omega
      rw [firstCode, mass, ← hstep, hpow]
      ring

/-- On the double scale everything is twice as large. -/
theorem mass_double {g : Nat} : ∀ k ≤ g, mass c (g + 1) k = 2 * mass c g k := by
  intro k
  induction k with
  | zero => exact fun _ => rfl
  | succ k ih =>
      intro h
      have hpow : 2 ^ (g + 1 - (k + 1)) = 2 * 2 ^ (g - (k + 1)) := by
        rw [← pow_succ']
        congr 1
        omega
      rw [mass, mass, ih (by omega), hpow]
      ring

theorem mass_scale {g k : Nat} (d : Nat) (h : k ≤ g) : mass c (g + d) k = 2 ^ d * mass c g k := by
  induction d with
  | zero => rw [Nat.add_zero, Nat.pow_zero, Nat.one_mul]
  | succ d ih =>
      rw [← Nat.add_assoc, mass_double k (by omega), ih, pow_succ]
      ring

/-- Lengths without words add nothing. -/
theorem mass_eq_of_empty {g k : Nat} :
    ∀ d, (∀ j, k < j → j ≤ k + d → c j = 0) → mass c g (k + d) = mass c g k := by
  intro d
  induction d with
  | zero => exact fun _ => rfl
  | succ d ih =>
      intro hempty
      rw [← Nat.add_assoc, mass, hempty (k + d + 1) (by omega) le_rfl, Nat.zero_mul, Nat.add_zero,
        ih fun j hj hj' => hempty j hj (by omega)]

/-- How many words there are up to a length. -/
def total (c : Nat → Nat) : Nat → Nat
  | 0 => 0
  | k + 1 => total c k + c (k + 1)

theorem total_mono {k k' : Nat} (h : k ≤ k') : total c k ≤ total c k' := by
  induction h with
  | refl => exact le_rfl
  | step _ ih => exact ih.trans (Nat.le_add_right _ _)

/-- Every word beyond a length covers at most as much as a word of that length. -/
theorem mass_le_total {g k k' : Nat} (h : k ≤ k') :
    mass c g k' + total c k * 2 ^ (g - k) ≤ mass c g k + total c k' * 2 ^ (g - k) := by
  induction h with
  | refl => exact le_rfl
  | @step k' hk ih =>
      have hle : k ≤ k' := hk
      have hpow : c (k' + 1) * 2 ^ (g - (k' + 1)) ≤ c (k' + 1) * 2 ^ (g - k) :=
        Nat.mul_le_mul_left _ (Nat.pow_le_pow_right (by decide) (by omega))
      rw [mass, total, Nat.add_mul]
      omega

theorem mass_congr {c c' : Nat → Nat} {g k : Nat} (h : ∀ j, 1 ≤ j → j ≤ k → c j = c' j) :
    mass c g k = mass c' g k := by
  induction k with
  | zero => rfl
  | succ k ih => rw [mass, mass, ih fun j h1 hj => h j h1 (by omega), h (k + 1) (by omega) le_rfl]

end counts

/-! ### The code of a list of lengths -/

/-- How many words have a length; length zero means that a symbol has no word. -/
def lengthCount (lens : List Nat) (k : Nat) : Nat := if k = 0 then 0 else lens.count k

/-- The part of `2^g` that the words of the given lengths cover. -/
def kraft (g : Nat) (lens : List Nat) : Nat := mass (lengthCount lens) g g

/-- The number of the word of a symbol: the first of its length plus the symbols of that length before it. -/
def code (lens : List Nat) (s : Nat) : Nat :=
  firstCode (lengthCount lens) (lens.getD s 0) + (lens.take s).count (lens.getD s 0)

/-- The word of a symbol, most significant bit first. -/
def codeWord (lens : List Nat) (s : Nat) : List Bool := (bits (lens.getD s 0) (code lens s)).reverse

@[simp]
theorem length_codeWord (lens : List Nat) (s : Nat) : (codeWord lens s).length = lens.getD s 0 := by
  rw [codeWord, List.length_reverse, length_bits]

theorem value_codeWord (lens : List Nat) (s : Nat) :
    value (codeWord lens s) = reversed (lens.getD s 0) (code lens s) := value_reverse _ _

/-- The symbols of the same length before a symbol are fewer than there are of that length. -/
theorem rank_lt {lens : List Nat} {s : Nat} (hs : s < lens.length) (hk : lens.getD s 0 ≠ 0) :
    (lens.take s).count (lens.getD s 0) < lengthCount lens (lens.getD s 0) := by
  have hget : lens.getD s 0 = lens[s] := List.getD_eq_getElem _ _ hs
  have hcount : lens.count lens[s] = (lens.take s).count lens[s] + ((lens.drop (s + 1)).count lens[s] + 1) := by
    rw [← List.count_cons_self, ← List.drop_eq_getElem_cons hs, ← List.count_append, List.take_append_drop]
  rw [lengthCount, if_neg hk, hget, hcount]
  omega

end Canonical
