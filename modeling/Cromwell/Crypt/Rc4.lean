/-
Module: Cromwell.Crypt.Rc4
Layer: Model
Purpose: The stream cipher of `lib/crypt/rc4.c`, and what its users rely on: the state is a permutation, a text may be
  given in pieces, and the same key restores what it has encrypted.
Imports: Mathlib
Trusted boundary: reviewed against src/lib/crypt/rc4.c, src/lib/crypt/rc4.h
Main exports: Rc4Key, rc4PrepareKey, rc4Crypt, rc4Crypt_append, rc4Crypt_involutive, rc4Crypt_bijective, rc4_laws
-/
import Mathlib

namespace Cromwell.Crypt

/-- `rc4_key`. -/
structure Rc4Key where
  state : UInt8 → UInt8
  x : UInt8
  y : UInt8

/-- `swap_byte(&state[i], &state[j])`. -/
def swapByte (state : UInt8 → UInt8) (i j : UInt8) : UInt8 → UInt8 :=
  fun k => if k = j then state i else if k = i then state j else state k

/-- The second loop of `rc4_prepare_key`, with the rounds that are left. -/
def rc4PrepareLoop (keyData : List UInt8) : Nat → UInt8 → UInt8 → UInt8 → (UInt8 → UInt8) → (UInt8 → UInt8)
  | 0, _, _, _, state => state
  | left + 1, counter, index1, index2, state =>
      let index2 := keyData.getD index1.toNat 0 + state counter + index2
      rc4PrepareLoop keyData left (counter + 1) (UInt8.ofNat ((index1.toNat + 1) % keyData.length)) index2
        (swapByte state counter index2)

/-- `rc4_prepare_key` with the `key_data_len` bytes at `key_data_ptr`. -/
def rc4PrepareKey (keyData : List UInt8) : Rc4Key :=
  ⟨rc4PrepareLoop keyData 256 0 0 0 fun counter => counter, 0, 0⟩

/-- The body of the loop of `rc4_crypt` up to `xorIndex`. -/
def Rc4Key.next (key : Rc4Key) : Rc4Key :=
  let x := key.x + 1
  let y := key.state x + key.y
  ⟨swapByte key.state x y, x, y⟩

/-- `state[xorIndex]`. -/
def Rc4Key.byte (key : Rc4Key) : UInt8 := key.state (key.state key.x + key.state key.y)

/-- `rc4_crypt`: the buffer afterwards, and the key. -/
def rc4Crypt : List UInt8 → Rc4Key → List UInt8 × Rc4Key
  | [], key => ([], key)
  | b :: buffer, key =>
      let key := key.next
      let rest := rc4Crypt buffer key
      ((b ^^^ key.byte) :: rest.1, rest.2)

@[simp]
theorem rc4Crypt_length (buffer : List UInt8) (key : Rc4Key) : (rc4Crypt buffer key).1.length = buffer.length := by
  induction buffer generalizing key with
  | nil =>
      rfl
  | cons b buffer ih =>
      simp only [rc4Crypt, List.length_cons, ih]

/-- The key stream goes on where a piece has left it. -/
theorem rc4Crypt_append (buffer buffer' : List UInt8) (key : Rc4Key) :
    rc4Crypt (buffer ++ buffer') key =
      ((rc4Crypt buffer key).1 ++ (rc4Crypt buffer' (rc4Crypt buffer key).2).1,
        (rc4Crypt buffer' (rc4Crypt buffer key).2).2) := by
  induction buffer generalizing key with
  | nil =>
      rfl
  | cons b buffer ih =>
      simp only [List.cons_append, rc4Crypt, ih]

/-- The key stream does not depend on the text, so crypting again restores it. -/
theorem rc4Crypt_involutive (buffer : List UInt8) (key : Rc4Key) :
    (rc4Crypt (rc4Crypt buffer key).1 key).1 = buffer := by
  induction buffer generalizing key with
  | nil =>
      rfl
  | cons b buffer ih =>
      simp only [rc4Crypt, ih, UInt8.xor_assoc, UInt8.xor_self, UInt8.xor_zero]

/-! ### The state is a permutation -/

/-- Two bytes that change places, which may be the same one. -/
theorem swapByte_eq (state : UInt8 → UInt8) (i j : UInt8) : swapByte state i j = state ∘ Equiv.swap i j := by
  funext k
  rw [swapByte, Function.comp_apply, Equiv.swap_apply_def]
  by_cases hj : k = j
  · rw [if_pos hj]
    by_cases hi : k = i
    · rw [if_pos hi, ← hj, ← hi]
    · rw [if_neg hi, if_pos hj]
  · rw [if_neg hj, if_neg hj]
    split
    · rfl
    · rfl

theorem swapByte_bijective {state : UInt8 → UInt8} (h : Function.Bijective state) (i j : UInt8) :
    Function.Bijective (swapByte state i j) := by
  rw [swapByte_eq]
  exact h.comp (Equiv.swap i j).bijective

theorem rc4PrepareLoop_bijective (keyData : List UInt8) (left : Nat) (counter index1 index2 : UInt8)
    {state : UInt8 → UInt8} (h : Function.Bijective state) :
    Function.Bijective (rc4PrepareLoop keyData left counter index1 index2 state) := by
  induction left generalizing counter index1 index2 state with
  | zero =>
      exact h
  | succ left ih =>
      rw [rc4PrepareLoop]
      apply ih
      exact swapByte_bijective h _ _

theorem rc4PrepareKey_bijective (keyData : List UInt8) : Function.Bijective (rc4PrepareKey keyData).state := by
  rw [rc4PrepareKey]
  apply rc4PrepareLoop_bijective
  exact Function.bijective_id

theorem rc4Crypt_bijective (buffer : List UInt8) {key : Rc4Key} (h : Function.Bijective key.state) :
    Function.Bijective (rc4Crypt buffer key).2.state := by
  induction buffer generalizing key with
  | nil =>
      exact h
  | cons b buffer ih =>
      rw [rc4Crypt]
      apply ih
      exact swapByte_bijective h _ _

/-- For every key: its state is a permutation and stays one, a buffer may be cut anywhere, and the same key gives it
    back. -/
theorem rc4_laws (keyData : List UInt8) :
    Function.Bijective (rc4PrepareKey keyData).state ∧
    (∀ (buffer : List UInt8) (key : Rc4Key), Function.Bijective key.state →
      Function.Bijective (rc4Crypt buffer key).2.state) ∧
    (∀ (buffer : List UInt8) (n : Nat) (key : Rc4Key),
      let first := rc4Crypt (buffer.take n) key
      let second := rc4Crypt (buffer.drop n) first.2
      rc4Crypt buffer key = (first.1 ++ second.1, second.2)) ∧
    ∀ buffer : List UInt8, (rc4Crypt (rc4Crypt buffer (rc4PrepareKey keyData)).1 (rc4PrepareKey keyData)).1 = buffer := by
  refine ⟨rc4PrepareKey_bijective keyData, fun buffer key h => rc4Crypt_bijective buffer h, fun buffer n key => ?_,
    fun buffer => rc4Crypt_involutive buffer _⟩
  dsimp only
  rw [← rc4Crypt_append, List.take_append_drop]

end Cromwell.Crypt
