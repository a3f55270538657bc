/-
Module: Cromwell.Lib.Settles
Layer: Lib
Purpose: Total correctness for computations with fuel. A family of computations, one for each amount of fuel,
  settles when from some amount on it ends, always in the same way. The rules follow the constructs of the
  modelled code, so that no amount of fuel has to be named in a proof.
Imports: Cromwell.Lib.Comp
Trusted boundary: none
Main exports: Total, Settles, Settles.bind, Settles.succ, Settles.shift, Settles.triple
-/
import Cromwell.Lib.Comp

namespace Comp

variable {σ α β : Type}

theorem id_map_run (m : Comp σ α) : id <$> m = m := by
  funext s
  have hmap : (id <$> m) s = (m >>= fun a => pure a) s := rfl
  rw [hmap]
  cases hm : m s with
  | none => rw [bind_run_none hm]
  | some r => rw [bind_run hm]; rfl

theorem bind_assoc_run {γ : Type} (m : Comp σ α) (f : α → Comp σ β) (g : β → Comp σ γ) :
    m >>= f >>= g = m >>= fun a => f a >>= g := by
  funext s
  cases hm : m s with
  | none => rw [bind_run_none hm, bind_run_none (bind_run_none hm)]
  | some r => rw [bind_run hm, bind_congr_run (bind_run hm)]

instance : LawfulMonad (Comp σ) :=
  LawfulMonad.mk' (Comp σ) id_map_run (fun _ _ => rfl) bind_assoc_run

/-- The computation ends from every state. -/
def Total (m : Comp σ α) : Prop := ∀ s, m s ≠ none

namespace Total

variable {m m' : Comp σ α} {f : α → Comp σ β}

theorem pure {a : α} : Total (Pure.pure a : Comp σ α) := fun _ h => by cases h

theorem modify {g : σ → σ} : Total (Comp.modify g) := fun _ h => by cases h

theorem get {f : σ → Comp σ β} (rest : ∀ r, Total (f r)) : Total (Comp.get >>= f) := fun s => rest s s

theorem bind (first : Total m) (rest : ∀ a, Total (f a)) : Total (m >>= f) := by
  intro s
  obtain ⟨⟨a, s'⟩, hrun⟩ := Option.ne_none_iff_exists'.mp (first s)
  rw [bind_run hrun]
  exact rest a s'

theorem ite {c : Prop} [Decidable c] (yes : Total m) (no : Total m') : Total (if c then m else m') := by
  by_cases hc : c
  · rw [if_pos hc]
    exact yes
  · rw [if_neg hc]
    exact no

end Total

/-- With enough fuel the family ends, with one result, and the result satisfies `Q`. -/
def Settles (m : Nat → Comp σ α) (s : σ) (Q : α → σ → Prop) : Prop :=
  ∃ enough a s', (∀ fuel, enough ≤ fuel → m fuel s = some (a, s')) ∧ Q a s'

namespace Settles

variable {m : Nat → Comp σ α} {f : Nat → α → Comp σ β} {s : σ} {Q Q' : α → σ → Prop} {R : β → σ → Prop}

/-- A computation without fuel. -/
theorem of_run {m : Comp σ α} {a : α} {s' : σ} (run : m s = some (a, s')) (h : Q a s') : Settles (fun _ => m) s Q :=
  ⟨0, a, s', fun _ _ => run, h⟩

theorem pure {a : α} (h : Q a s) : Settles (fun _ => Pure.pure a) s Q :=
  of_run rfl h

theorem of_total {m : Comp σ α} (total : Total m) : Settles (fun _ => m) s fun _ _ => True := by
  obtain ⟨r, hrun⟩ := Option.ne_none_iff_exists'.mp (total s)
  exact of_run hrun trivial

theorem post (h : Settles m s Q) (imp : ∀ a s', Q a s' → Q' a s') : Settles m s Q' := by
  obtain ⟨enough, a, s', hrun, hq⟩ := h
  exact ⟨enough, a, s', hrun, imp a s' hq⟩

theorem congr {m' : Nat → Comp σ α} (h : Settles m s Q) (same : ∀ fuel, m' fuel s = m fuel s) : Settles m' s Q := by
  obtain ⟨enough, a, s', hrun, hq⟩ := h
  exact ⟨enough, a, s', fun fuel hfuel => (same fuel).trans (hrun fuel hfuel), hq⟩

theorem bind (first : Settles m s Q) (rest : ∀ a s', Q a s' → Settles (fun fuel => f fuel a) s' R) :
    Settles (fun fuel => m fuel >>= f fuel) s R := by
  obtain ⟨enough, a, s', hrun, hq⟩ := first
  obtain ⟨enough', b, s'', hrun', hr⟩ := rest a s' hq
  refine ⟨max enough enough', b, s'', fun fuel hfuel => ?_, hr⟩
  exact (bind_run (hrun fuel (le_trans (le_max_left _ _) hfuel))).trans
    (hrun' fuel (le_trans (le_max_right _ _) hfuel))

theorem get {g : Nat → σ → Comp σ β} (rest : Settles (fun fuel => g fuel s) s R) :
    Settles (fun fuel => Comp.get >>= g fuel) s R :=
  rest

/-- One unit of fuel is spent first. -/
theorem succ (h : Settles (fun fuel => m (fuel + 1)) s Q) : Settles m s Q := by
  obtain ⟨enough, a, s', hrun, hq⟩ := h
  refine ⟨enough + 1, a, s', fun fuel hfuel => ?_, hq⟩
  obtain ⟨spare, rfl⟩ := Nat.exists_eq_add_of_le' (le_trans (Nat.le_add_left 1 enough) hfuel)
  exact hrun spare (Nat.le_of_succ_le_succ hfuel)

/-- More fuel than counted does no harm. -/
theorem shift (h : Settles m s Q) {more : Nat → Nat} (hmore : ∀ fuel, fuel ≤ more fuel) :
    Settles (fun fuel => m (more fuel)) s Q := by
  obtain ⟨enough, a, s', hrun, hq⟩ := h
  exact ⟨enough, a, s', fun fuel hfuel => hrun _ (le_trans hfuel (hmore fuel)), hq⟩

theorem ite {c : Prop} [Decidable c] {m' : Nat → Comp σ α} (yes : c → Settles m s Q) (no : ¬ c → Settles m' s Q) :
    Settles (fun fuel => if c then m fuel else m' fuel) s Q := by
  by_cases hc : c
  · simp only [if_pos hc]
    exact yes hc
  · simp only [if_neg hc]
    exact no hc

/-- What is known of every run that ends is known of the result. -/
theorem triple {P : σ → Prop} (h : Settles m s Q) (partially : ∀ fuel, Triple P (m fuel) Q') (hs : P s) :
    Settles m s fun a s' => Q a s' ∧ Q' a s' := by
  obtain ⟨enough, a, s', hrun, hq⟩ := h
  exact ⟨enough, a, s', hrun, hq, partially enough s hs a s' (hrun enough (le_refl enough))⟩

/-- A computation that always ends and keeps an invariant. -/
theorem of_triple {m : Comp σ α} {P : σ → Prop} (total : Total m) (keeps : Triple P m Q) (hs : P s) :
    Settles (fun _ => m) s Q :=
  ((of_total total).triple (fun _ => keeps) hs).post fun _ _ h => h.2

theorem run (h : Settles m s Q) : ∃ fuel a s', m fuel s = some (a, s') ∧ Q a s' := by
  obtain ⟨enough, a, s', hrun, hq⟩ := h
  exact ⟨enough, a, s', hrun enough (le_refl enough), hq⟩

/-- A family that keeps its result when it gets more fuel settles as soon as it ends once. -/
theorem of_mono (more : ∀ fuel r, m fuel s = some r → m (fuel + 1) s = some r) {fuel : Nat} (run : m fuel s ≠ none) :
    Settles m s fun _ _ => True := by
  obtain ⟨⟨a, s'⟩, hrun⟩ := Option.ne_none_iff_exists'.mp run
  refine ⟨fuel, a, s', fun fuel' hle => ?_, trivial⟩
  induction fuel', hle using Nat.le_induction with
  | base => exact hrun
  | succ fuel' _ ih => exact more fuel' _ ih

end Settles

end Comp
