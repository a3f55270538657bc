/-
Module: Cromwell.Lib.Ensures
Layer: Lib
Purpose: What holds of the results of a computation that may fail: partial correctness for `Except`, with one rule for
  each way such computations are put together.
Imports: Mathlib
Trusted boundary: none
Main exports: Ensures, Ensures.ok, Ensures.error, Ensures.bind, Ensures.ite, Ensures.mono
-/
import Mathlib

/-- If the computation has a result, then `Q` holds of it. -/
def Ensures {ε α : Type} (x : Except ε α) (Q : α → Prop) : Prop := ∀ a, x = .ok a → Q a

namespace Ensures

variable {ε α β : Type} {x : Except ε α} {f : α → Except ε β} {Q Q' : α → Prop} {R : β → Prop}

theorem ok {a : α} (h : Q a) : Ensures (.ok a : Except ε α) Q := by
  intro b hb
  cases hb
  exact h

theorem error {e : ε} : Ensures (.error e : Except ε α) Q := by
  intro b hb
  cases hb

theorem bind (first : Ensures x Q) (rest : ∀ a, Q a → Ensures (f a) R) : Ensures (x >>= f) R := by
  intro b hb
  cases x with
  | error e => cases hb
  | ok a => exact rest a (first a rfl) b hb

theorem ite {c : Prop} [Decidable c] {y : Except ε α} (yes : c → Ensures x Q) (no : ¬ c → Ensures y Q) :
    Ensures (if c then x else y) Q := by
  by_cases hc : c
  · rw [if_pos hc]
    exact yes hc
  · rw [if_neg hc]
    exact no hc

theorem mono (h : Ensures x Q) (imp : ∀ a, Q a → Q' a) : Ensures x Q' := fun a ha => imp a (h a ha)

end Ensures
