/-
Module: Cromwell.Lib.BlockHash
Layer: Lib
Purpose: Iterated hashing over blocks of a fixed size: a chaining value, the symbols that do not fill a block
  yet, and a compression function that is applied whenever a block is full. The message may arrive in any
  number of pieces.
Imports: Mathlib
Trusted boundary: none
Main exports: push, absorb, absorb_append, absorb_short, absorb_full
-/
import Mathlib

namespace BlockHash

variable {σ α : Type}

/-- Take one symbol: it waits with the others, or it fills the block. -/
def push (f : σ → List α → σ) (n : Nat) (s : σ × List α) (a : α) : σ × List α :=
  if s.2.length + 1 = n then (f s.1 (s.2 ++ [a]), []) else (s.1, s.2 ++ [a])

/-- Take a whole message. -/
def absorb (f : σ → List α → σ) (n : Nat) (s : σ × List α) (m : List α) : σ × List α :=
  m.foldl (push f n) s

variable {f : σ → List α → σ} {n : Nat}

@[simp]
theorem absorb_nil (s : σ × List α) : absorb f n s [] = s := rfl

@[simp]
theorem absorb_cons (s : σ × List α) (a : α) (m : List α) :
    absorb f n s (a :: m) = absorb f n (push f n s a) m := rfl

theorem absorb_append (s : σ × List α) (m m' : List α) :
    absorb f n s (m ++ m') = absorb f n (absorb f n s m) m' :=
  List.foldl_append

/-- There is always room for one more symbol. -/
theorem push_pending {s : σ × List α} (a : α) (h : s.2.length < n) : (push f n s a).2.length < n := by
  unfold push
  split
  · exact Nat.zero_lt_of_lt h
  · rw [List.length_append, List.length_singleton]
    omega

/-- What does not fill a block only waits. -/
theorem absorb_short {h : σ} {p m : List α} (hlen : p.length + m.length < n) :
    absorb f n (h, p) m = (h, p ++ m) := by
  induction m generalizing p with
  | nil =>
      rw [absorb_nil, List.append_nil]
  | cons a m ih =>
      rw [List.length_cons] at hlen
      have hpush : push f n (h, p) a = (h, p ++ [a]) := if_neg (by dsimp only; omega)
      rw [absorb_cons, hpush, ih (by rw [List.length_append, List.length_singleton]; omega),
        List.append_assoc, List.singleton_append]

/-- What fills a block exactly is one compression. -/
theorem absorb_full {h : σ} {p m : List α} (hm : m ≠ []) (hlen : p.length + m.length = n) :
    absorb f n (h, p) m = (f h (p ++ m), []) := by
  obtain ⟨m, a, rfl⟩ : ∃ m' a, m = m' ++ [a] := ⟨_, _, (List.dropLast_append_getLast hm).symm⟩
  rw [List.length_append, List.length_singleton] at hlen
  have hwait : absorb f n (h, p) m = (h, p ++ m) := absorb_short (by omega)
  have hlast : (p ++ m).length + 1 = n := by rw [List.length_append]; omega
  rw [absorb_append, hwait, absorb_cons, absorb_nil, push, if_pos hlast, List.append_assoc]

/-- The length that waits is the total length modulo the block size. -/
theorem absorb_pending_length {s : σ × List α} (m : List α) (h : s.2.length < n) :
    (absorb f n s m).2.length = (s.2.length + m.length) % n := by
  induction m generalizing s with
  | nil =>
      rw [absorb_nil, List.length_nil, Nat.add_zero, Nat.mod_eq_of_lt h]
  | cons a m ih =>
      rw [absorb_cons, ih (push_pending a h), List.length_cons]
      unfold push
      split
      case isTrue hfull =>
        rw [List.length_nil, Nat.zero_add, show s.2.length + (m.length + 1) = m.length + n by omega,
          Nat.add_mod_right]
      case isFalse =>
        rw [List.length_append, List.length_singleton]
        congr 1
        omega

end BlockHash
