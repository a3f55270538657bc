/-
Module: Cromwell.Lib.ByteMemory
Layer: Lib
Purpose: A flat byte memory addressed by naturals, with the block operations of a C library (`fill` for
  `memset`, `store`, little-endian words) and the two facts every proof about them needs: what is read
  inside the written range, and that nothing outside it moves. Address masks of 32-bit code are reduced
  to division here as well, so that no later proof meets a bitwise operator.
Imports: Mathlib
Trusted boundary: none
Main exports: u32, sub32, Mem, Mem.store, Mem.fill, Mem.copy, Mem.storeWord, Mem.loadWord, and_highMask
-/
import Mathlib

namespace ByteMemory

/-- Arithmetic of 32-bit unsigned integers. -/
def u32 (n : Nat) : Nat := n % 2 ^ 32

/-- `a - b` of 32-bit unsigned integers. -/
def sub32 (a b : Nat) : Nat := u32 (a + 2 ^ 32 - b)

theorem u32_of_lt {n : Nat} (h : n < 2 ^ 32) : u32 n = n := Nat.mod_eq_of_lt h

theorem sub32_of_le {a b : Nat} (h : b ≤ a) (ha : a < 2 ^ 32) : sub32 a b = a - b := by
  rw [sub32, u32]
  omega

/-- A byte for every address. -/
abbrev Mem := Nat → UInt8

namespace Mem

/-- Store one byte. -/
def store (m : Mem) (a : Nat) (b : UInt8) : Mem :=
  fun x => if x = a then b else m x

/-- Set `n` bytes from `a` on to `v`. -/
def fill (m : Mem) (a n : Nat) (v : UInt8) : Mem :=
  fun x => if a ≤ x ∧ x < a + n then v else m x

/-- Copy `n` bytes at once: all are read before any is written. -/
def copy (m : Mem) (dest src n : Nat) : Mem :=
  fun x => if dest ≤ x ∧ x < dest + n then m (src + (x - dest)) else m x

/-- The `i`-th byte of a 32-bit word in little-endian order. -/
def wordByte (w i : Nat) : UInt8 :=
  UInt8.ofNat (w / 256 ^ i)

/-- Store a 32-bit word in little-endian order. -/
def storeWord (m : Mem) (a w : Nat) : Mem :=
  fun x => if a ≤ x ∧ x < a + 4 then wordByte w (x - a) else m x

/-- Load a 32-bit word in little-endian order. -/
def loadWord (m : Mem) (a : Nat) : Nat :=
  (m a).toNat + 256 * (m (a + 1)).toNat + 65536 * (m (a + 2)).toNat + 16777216 * (m (a + 3)).toNat

theorem store_self (m : Mem) (a : Nat) (b : UInt8) : m.store a b a = b := by
  simp [store]

theorem store_of_ne {m : Mem} {a x : Nat} {b : UInt8} (h : x ≠ a) : m.store a b x = m x := by
  simp [store, h]

theorem fill_of_mem {m : Mem} {a n x : Nat} {v : UInt8} (lo : a ≤ x) (hi : x < a + n) :
    m.fill a n v x = v := by
  simp [fill, lo, hi]

theorem fill_of_not_mem {m : Mem} {a n x : Nat} {v : UInt8} (h : ¬ (a ≤ x ∧ x < a + n)) :
    m.fill a n v x = m x := by
  simp only [fill, if_neg h]

theorem copy_of_mem {m : Mem} {dest src n i : Nat} (hi : i < n) :
    m.copy dest src n (dest + i) = m (src + i) := by
  simp [copy, hi]

/-- Copying on piece by piece is copying at once, as long as no piece reads what an earlier one wrote. -/
theorem copy_copy (m : Mem) {dest src p w : Nat} (h : dest ≤ src ∨ src + p + w ≤ dest) :
    (m.copy dest src p).copy (dest + p) (src + p) w = m.copy dest src (p + w) := by
  funext x
  simp only [copy]
  by_cases hlast : dest + p ≤ x ∧ x < dest + p + w
  · have hsrc : ¬ (dest ≤ src + p + (x - (dest + p)) ∧ src + p + (x - (dest + p)) < dest + p) := by
      omega
    rw [if_pos hlast, if_neg hsrc, if_pos (by omega)]
    congr 1
    omega
  · rw [if_neg hlast]
    by_cases hfirst : dest ≤ x ∧ x < dest + p
    · rw [if_pos hfirst, if_pos (by omega)]
    · rw [if_neg hfirst, if_neg (by omega)]

theorem storeWord_of_not_mem {m : Mem} {a w x : Nat} (h : ¬ (a ≤ x ∧ x < a + 4)) :
    m.storeWord a w x = m x := by
  simp only [storeWord, if_neg h]

/-- A stored word is read back, as long as it is a 32-bit word. -/
theorem loadWord_storeWord (m : Mem) (a : Nat) {w : Nat} (hw : w < 2 ^ 32) :
    (m.storeWord a w).loadWord a = w := by
  simp only [loadWord, storeWord, wordByte]
  simp
  omega

/-- A word depends on its four bytes only. -/
theorem loadWord_congr {m m' : Mem} {a : Nat} (h : ∀ x, a ≤ x → x < a + 4 → m x = m' x) :
    m.loadWord a = m'.loadWord a := by
  simp only [loadWord]
  rw [h a (by omega) (by omega), h (a + 1) (by omega) (by omega), h (a + 2) (by omega) (by omega),
    h (a + 3) (by omega) (by omega)]

theorem loadWord_lt (m : Mem) (a : Nat) : m.loadWord a < 2 ^ 32 := by
  have h0 := (m a).toNat_lt
  have h1 := (m (a + 1)).toNat_lt
  have h2 := (m (a + 2)).toNat_lt
  have h3 := (m (a + 3)).toNat_lt
  rw [loadWord]
  omega

/-- A word has a given value exactly when its bytes are the bytes of that value. -/
theorem loadWord_eq_iff {m : Mem} {a w : Nat} (hw : w < 2 ^ 32) :
    m.loadWord a = w ↔ ∀ i < 4, m (a + i) = wordByte w i := by
  have byteEq : ∀ i, m (a + i) = wordByte w i ↔ (m (a + i)).toNat = w / 256 ^ i % 256 := by
    intro i
    rw [← UInt8.toNat_inj, wordByte, UInt8.toNat_ofNat']
  have h0 := (m a).toNat_lt
  have h1 := (m (a + 1)).toNat_lt
  have h2 := (m (a + 2)).toNat_lt
  have h3 := (m (a + 3)).toNat_lt
  simp only [loadWord, byteEq]
  constructor
  · intro h i hi
    interval_cases i <;> simp <;> omega
  · intro h
    have e0 := h 0 (by omega)
    have e1 := h 1 (by omega)
    have e2 := h 2 (by omega)
    have e3 := h 3 (by omega)
    simp at e0 e1 e2 e3
    omega

end Mem

/-- Masking a 32-bit value with `2^32 - 2^k` clears its low `k` bits. -/
theorem and_highMask {x k : Nat} (hx : x < 2 ^ 32) (hk : k ≤ 32) :
    x &&& (2 ^ 32 - 2 ^ k) = x / 2 ^ k * 2 ^ k := by
  have hmask : 2 ^ 32 - 2 ^ k = (2 ^ (32 - k) - 1) <<< k := by
    rw [Nat.shiftLeft_eq, Nat.sub_mul, ← Nat.pow_add, Nat.sub_add_cancel hk, Nat.one_mul]
  rw [hmask, ← Nat.shiftLeft_eq, ← Nat.shiftRight_eq_div_pow]
  apply Nat.eq_of_testBit_eq
  intro i
  rw [Nat.testBit_and, Nat.testBit_shiftLeft, Nat.testBit_shiftLeft, Nat.testBit_two_pow_sub_one,
    Nat.testBit_shiftRight]
  by_cases hi : i ≥ k
  · have hback : k + (i - k) = i := by omega
    rw [hback]
    by_cases hlt : i - k < 32 - k
    · simp [hi, hlt]
    · -- above bit 31 the value itself has no bits
      have hbit : x.testBit i = false :=
        Nat.testBit_lt_two_pow (lt_of_lt_of_le hx (Nat.pow_le_pow_right (by omega) (by omega)))
      simp [hbit]
  · simp [hi]

end ByteMemory
