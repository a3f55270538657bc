/-
Module: Cromwell.Lib.Comp
Layer: Lib
Purpose: Computations over a state that may not end, and partial-correctness triples for them. A loop of
  the modelled code is a recursion on fuel; running out of fuel is `none`, so that a triple speaks about
  every run that ends and about nothing else.
Imports: Mathlib
Trusted boundary: none
Main exports: Comp, Comp.stuck, Triple, Triple.bind, Triple.pure, Triple.weaken
-/
import Mathlib

/-- A computation over `σ`; `none` is a run that has not ended. -/
def Comp (σ α : Type) : Type := σ → Option (α × σ)

namespace Comp

variable {σ α β : Type}

instance : Monad (Comp σ) where
  pure a := fun s => some (a, s)
  bind m f := fun s =>
    match m s with
    | none => none
    | some (a, s') => f a s'

/-- A run that does not end. -/
def stuck : Comp σ α := fun _ => none

/-- Change the state. -/
def modify (f : σ → σ) : Comp σ Unit := fun s => some ((), f s)

/-- Read the state. -/
def get : Comp σ σ := fun s => some (s, s)

/-- The run of a sequence, when the run of its first part is known. -/
theorem bind_run {m : Comp σ α} {f : α → Comp σ β} {s s' : σ} {a : α} (first : m s = some (a, s')) :
    (m >>= f) s = f a s' := by
  change (match m s with | none => none | some (a, s') => f a s') = f a s'
  rw [first]

/-- A sequence whose first part does not end. -/
theorem bind_run_none {m : Comp σ α} {f : α → Comp σ β} {s : σ} (first : m s = none) : (m >>= f) s = none := by
  change (match m s with | none => none | some (a, s') => f a s') = none
  rw [first]

theorem get_bind_run (f : σ → Comp σ β) (s : σ) : (get >>= f) s = f s s := rfl

/-- First parts that run alike. -/
theorem bind_congr_run {m m' : Comp σ α} {f : α → Comp σ β} {s s' : σ} (first : m s = m' s') :
    (m >>= f) s = (m' >>= f) s' := by
  change (match m s with | none => none | some (a, s') => f a s') =
    match m' s' with | none => none | some (a, s') => f a s'
  rw [first]

/-- The run of a sequence that has ended, taken apart. -/
theorem bind_eq_some {m : Comp σ α} {f : α → Comp σ β} {s s' : σ} {b : β} (run : (m >>= f) s = some (b, s')) :
    ∃ a s₁, m s = some (a, s₁) ∧ f a s₁ = some (b, s') := by
  change (match m s with | none => none | some (a, s') => f a s') = some (b, s') at run
  cases hm : m s with
  | none =>
      rw [hm] at run
      cases run
  | some r =>
      rw [hm] at run
      exact ⟨r.1, r.2, rfl, run⟩

/-- `Triple P m Q`: every run of `m` from a state in `P` that ends with `a` ends in a state in `Q a`. -/
def Triple (P : σ → Prop) (m : Comp σ α) (Q : α → σ → Prop) : Prop :=
  ∀ s, P s → ∀ a s', m s = some (a, s') → Q a s'

namespace Triple

variable {P P' : σ → Prop} {m : Comp σ α} {f : α → Comp σ β} {Q Q' : α → σ → Prop} {R : β → σ → Prop}

theorem pure {a : α} (h : ∀ s, P s → Q a s) : Triple P (Pure.pure a) Q := by
  intro s hs b s' hrun
  cases hrun
  exact h s hs

theorem bind (first : Triple P m Q) (rest : ∀ a, Triple (Q a) (f a) R) : Triple P (m >>= f) R := by
  intro s hs b s' hrun
  obtain ⟨a, s₁, hm, hf⟩ := bind_eq_some hrun
  exact rest a s₁ (first s hs a s₁ hm) b s' hf

theorem weaken (h : Triple P m Q) (pre : ∀ s, P' s → P s) (post : ∀ a s, Q a s → Q' a s) :
    Triple P' m Q' := by
  intro s hs a s' hrun
  exact post a s' (h s (pre s hs) a s' hrun)

theorem post (h : Triple P m Q) (imp : ∀ a s, Q a s → Q' a s) : Triple P m Q' :=
  h.weaken (fun _ hs => hs) imp

theorem stuck : Triple P (Comp.stuck : Comp σ α) Q := by
  intro s _ a s' hrun
  exact absurd hrun (by simp [Comp.stuck])

theorem modify {g : σ → σ} {Q : Unit → σ → Prop} (h : ∀ s, P s → Q () (g s)) :
    Triple P (Comp.modify g) Q := by
  intro s hs a s' hrun
  cases hrun
  exact h s hs

/-- Reading the state: what follows may use that the value read satisfies the precondition. -/
theorem get {g : σ → Comp σ β} (rest : ∀ r, P r → Triple P (g r) R) : Triple P (Comp.get >>= g) R := by
  intro s hs b s' hrun
  exact rest s hs s hs b s' hrun

/-- Reading the state, where what follows depends on its being the state that was read. -/
theorem get_same {g : σ → Comp σ β} (rest : ∀ r, P r → Triple (· = r) (g r) R) : Triple P (Comp.get >>= g) R := by
  intro s hs b s' hrun
  exact rest s hs s rfl b s' hrun

theorem ite {c : Prop} [Decidable c] {m' : Comp σ α} (yes : c → Triple P m Q)
    (no : ¬ c → Triple P m' Q) : Triple P (if c then m else m') Q := by
  by_cases hc : c
  · rw [if_pos hc]
    exact yes hc
  · rw [if_neg hc]
    exact no hc

end Triple

end Comp
