/-
Module: Cromwell.Lib.Walk
Layer: Lib
Purpose: Loops that follow a function from state to state until a state stops them, such as a walk along a linked
  structure without a visited set. In finitely many states such a walk ends exactly when no state comes up twice;
  a property of every state that is reached is a property of the first state and of every step.
Imports: Mathlib
Trusted boundary: none
Main exports: Reached, Ends, NoReturn, ends_iff_noReturn, forall_reached_iff, IsLoop, IsLoop.eq_some_iff,
  IsLoop.returns_iff
-/
import Mathlib

namespace Walk

variable {α β γ : Type} {step : α → α} {stop : α → Prop} {a : α}

/-- The walk gets to its state number `n`. -/
def Reached (step : α → α) (stop : α → Prop) (a : α) (n : Nat) : Prop := ∀ m < n, ¬ stop (step^[m] a)

/-- The walk stops. -/
def Ends (step : α → α) (stop : α → Prop) (a : α) : Prop := ∃ n, stop (step^[n] a)

/-- No state comes up twice. -/
def NoReturn (step : α → α) (stop : α → Prop) (a : α) : Prop :=
  ∀ i j, i < j → Reached step stop a j → step^[i] a ≠ step^[j] a

theorem reached_zero : Reached step stop a 0 := by
  intro m hm
  exact absurd hm (Nat.not_lt_zero m)

theorem Reached.of_le {n m : Nat} (h : Reached step stop a n) (hm : m ≤ n) : Reached step stop a m := by
  intro k hk
  exact h k (Nat.lt_of_lt_of_le hk hm)

theorem reached_succ_iff {n : Nat} :
    Reached step stop a (n + 1) ↔ ¬ stop a ∧ Reached step stop (step a) n := by
  constructor
  · intro h
    exact ⟨h 0 (Nat.succ_pos n), fun m hm => h (m + 1) (Nat.succ_lt_succ hm)⟩
  · rintro ⟨hstop, h⟩ m hm
    cases m with
    | zero => exact hstop
    | succ m => exact h m (Nat.lt_of_succ_lt_succ hm)

/-- The first state that stops the walk. -/
theorem Ends.first (h : Ends step stop a) : ∃ n, Reached step stop a n ∧ stop (step^[n] a) := by
  classical
  exact ⟨Nat.find h, fun m hm => Nat.find_min h hm, Nat.find_spec h⟩

/-- From a state that comes up twice on, the walk goes in a circle. -/
theorem iterate_of_return {i j n : Nat} (hij : i < j) (heq : step^[i] a = step^[j] a) (hn : j ≤ n) :
    step^[n] a = step^[n - (j - i)] a := by
  obtain ⟨d, rfl⟩ := Nat.exists_eq_add_of_le hn
  have hback : j + d - (j - i) = d + i := by omega
  rw [hback, Nat.add_comm j d, Function.iterate_add_apply, Function.iterate_add_apply, heq]

theorem Ends.noReturn (h : Ends step stop a) : NoReturn step stop a := by
  obtain ⟨n, hreached, hstop⟩ := h.first
  intro i j hij hj heq
  have hn : j ≤ n := by
    by_contra hlt
    exact hj n (Nat.lt_of_not_le hlt) hstop
  -- The last state would have stopped the walk one round of the circle before.
  apply hreached (n - (j - i)) (by omega)
  rw [← iterate_of_return hij heq hn]
  exact hstop

/-- In finitely many states a walk ends exactly when no state comes up twice. -/
theorem ends_iff_noReturn {S : Set α} (hS : S.Finite) (hmem : ∀ n, step^[n] a ∈ S) :
    Ends step stop a ↔ NoReturn step stop a := by
  constructor
  · exact Ends.noReturn
  · intro h
    by_contra hends
    have hreached : ∀ n, Reached step stop a n := fun n m _ hm => hends ⟨m, hm⟩
    obtain ⟨i, j, hij, heq⟩ := hS.exists_lt_map_eq_of_forall_mem (f := fun n => step^[n] a) hmem
    exact h i j hij (hreached j) heq

/-- What holds of every state that is reached. -/
theorem forall_reached_iff {P : α → Prop} :
    (∀ n, Reached step stop a n → P (step^[n] a)) ↔
      P a ∧ ∀ n, Reached step stop a (n + 1) → P (step^[n] a) → P (step (step^[n] a)) := by
  constructor
  · intro h
    refine ⟨h 0 reached_zero, fun n hn _ => ?_⟩
    rw [← Function.iterate_succ_apply' step]
    exact h (n + 1) hn
  · rintro ⟨hfirst, hstep⟩ n
    induction n with
    | zero =>
        intro _
        exact hfirst
    | succ n ih =>
        intro hn
        rw [Function.iterate_succ_apply']
        exact hstep n hn (ih (hn.of_le (Nat.le_succ n)))

/-! ### Loops with a bound on their rounds -/

/-- `f` is the loop `while (!stop) step`, with no result when the rounds do not suffice. -/
structure IsLoop (step : α → α) (stop : α → Prop) (out : α → β) (f : Nat → α → Option β) : Prop where
  zero : ∀ a, f 0 a = none
  halt : ∀ n a, stop a → f (n + 1) a = some (out a)
  next : ∀ n a, ¬ stop a → f (n + 1) a = f n (step a)

namespace IsLoop

variable {out : α → β} {f : Nat → α → Option β}

/-- The result is that of the first state that stops the loop. -/
theorem eq_some_iff (hf : IsLoop step stop out f) {rounds : Nat} {a : α} {b : β} :
    f rounds a = some b ↔
      ∃ n < rounds, Reached step stop a n ∧ stop (step^[n] a) ∧ out (step^[n] a) = b := by
  induction rounds generalizing a with
  | zero =>
      rw [hf.zero]
      constructor
      · intro h
        cases h
      · rintro ⟨n, hn, -⟩
        exact absurd hn (Nat.not_lt_zero n)
  | succ rounds ih =>
      by_cases hstop : stop a
      · rw [hf.halt rounds a hstop, Option.some.injEq]
        constructor
        · intro h
          exact ⟨0, Nat.succ_pos rounds, reached_zero, hstop, h⟩
        · rintro ⟨n, -, hreached, -, hout⟩
          cases n with
          | zero => exact hout
          | succ n => exact absurd hstop (hreached 0 (Nat.succ_pos n))
      · rw [hf.next rounds a hstop, ih]
        constructor
        · rintro ⟨n, hn, hreached, hend, hout⟩
          exact ⟨n + 1, Nat.succ_lt_succ hn, reached_succ_iff.mpr ⟨hstop, hreached⟩, hend, hout⟩
        · rintro ⟨n, hn, hreached, hend, hout⟩
          cases n with
          | zero => exact absurd hend hstop
          | succ n => exact ⟨n, Nat.lt_of_succ_lt_succ hn, (reached_succ_iff.mp hreached).2, hend, hout⟩

/-- More rounds do not change the result. -/
theorem mono (hf : IsLoop step stop out f) {rounds rounds' : Nat} (hle : rounds ≤ rounds') {a : α} {b : β}
    (h : f rounds a = some b) : f rounds' a = some b := by
  obtain ⟨n, hn, hrest⟩ := hf.eq_some_iff.mp h
  exact hf.eq_some_iff.mpr ⟨n, Nat.lt_of_lt_of_le hn hle, hrest⟩

/-- With enough rounds there is a result exactly when the walk ends. -/
theorem returns_iff (hf : IsLoop step stop out f) {a : α} :
    (∃ rounds, (f rounds a).isSome) ↔ Ends step stop a := by
  constructor
  · rintro ⟨rounds, h⟩
    obtain ⟨b, hb⟩ := Option.isSome_iff_exists.mp h
    obtain ⟨n, -, -, hstop, -⟩ := hf.eq_some_iff.mp hb
    exact ⟨n, hstop⟩
  · intro h
    obtain ⟨n, hreached, hstop⟩ := h.first
    refine ⟨n + 1, Option.isSome_iff_exists.mpr ⟨out (step^[n] a), ?_⟩⟩
    exact hf.eq_some_iff.mpr ⟨n, Nat.lt_succ_self n, hreached, hstop, rfl⟩

end IsLoop

end Walk
