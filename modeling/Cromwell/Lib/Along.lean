/-
Module: Cromwell.Lib.Along
Layer: Lib
Purpose: Conditions on each event of a run and the state that it meets. Two conditions that an invariant makes
  the same for one event are the same along a whole run, up to the first event that fails.
Imports: Mathlib
Trusted boundary: none
Main exports: Along, Along.iff_of_inv, Along.iff_final, Along.append, Along.last
-/
import Mathlib

variable {σ ε : Type}

/-- Every event of the run meets the condition in the state in which it happens. -/
def Along (step : σ → ε → σ) (P : σ → ε → Prop) : σ → List ε → Prop
  | _, [] => True
  | s, e :: rest => P s e ∧ Along step P (step s e) rest

namespace Along

variable {step : σ → ε → σ} {P Q : σ → ε → Prop} {I : σ → Prop} {E : ε → Prop}

/-- The conditions need to agree where the invariant holds only, and for events that can happen. -/
theorem iff_of_inv (keep : ∀ s e, E e → I s → Q s e → I (step s e)) (same : ∀ s e, E e → I s → (P s e ↔ Q s e))
    {s : σ} (hs : I s) {l : List ε} (hl : ∀ e ∈ l, E e) : Along step P s l ↔ Along step Q s l := by
  induction l generalizing s with
  | nil =>
      exact Iff.rfl
  | cons e rest ih =>
      have he := hl e List.mem_cons_self
      have hrest : ∀ e ∈ rest, E e := fun e h => hl e (List.mem_cons_of_mem _ h)
      constructor
      · intro h
        have hq := (same s e he hs).mp h.1
        exact ⟨hq, (ih (keep s e he hs hq) hrest).mp h.2⟩
      · intro h
        exact ⟨(same s e he hs).mpr h.1, (ih (keep s e he hs h.1) hrest).mpr h.2⟩

instance decidable [∀ s e, Decidable (P s e)] : (s : σ) → (l : List ε) → Decidable (Along step P s l)
  | _, [] => isTrue trivial
  | s, e :: rest =>
      haveI := decidable (step s e) rest
      inferInstanceAs (Decidable (P s e ∧ Along step P (step s e) rest))

/-- A condition that the events meet in every state. -/
theorem of_forall {l : List ε} (h : ∀ e ∈ l, ∀ s, P s e) (s : σ) : Along step P s l := by
  induction l generalizing s with
  | nil => trivial
  | cons e rest ih => exact ⟨h e List.mem_cons_self s, ih (fun e he => h e (List.mem_cons_of_mem _ he)) (step s e)⟩

theorem append {s : σ} {l l' : List ε} :
    Along step P s (l ++ l') ↔ Along step P s l ∧ Along step P (l.foldl step s) l' := by
  induction l generalizing s with
  | nil =>
      exact ⟨fun h => ⟨trivial, h⟩, fun h => h.2⟩
  | cons e rest ih =>
      rw [List.cons_append, Along, ih, Along, List.foldl_cons, and_assoc]

/-- A property that is kept by the events that meet the condition, broken by the others, and never regained: it holds
    at the end of a run exactly when all its events meet the condition. -/
theorem iff_final {G : σ → Prop} (inv : ∀ s e, E e → I s → I (step s e))
    (keep : ∀ s e, E e → I s → G s → P s e → G (step s e))
    (breaks : ∀ s e, E e → I s → G s → ¬ P s e → ¬ G (step s e)) (lost : ∀ s e, E e → I s → ¬ G s → ¬ G (step s e))
    {l : List ε} (hl : ∀ e ∈ l, E e) : ∀ {s : σ}, I s → G s → (G (l.foldl step s) ↔ Along step P s l) := by
  have hlost : ∀ {l : List ε}, (∀ e ∈ l, E e) → ∀ {s : σ}, I s → ¬ G s → ¬ G (l.foldl step s) := by
    intro l
    induction l with
    | nil => exact fun _ _ _ hg => hg
    | cons e rest ih =>
        intro hl s hs hg
        have he := hl e List.mem_cons_self
        exact ih (fun e h => hl e (List.mem_cons_of_mem _ h)) (inv s e he hs) (lost s e he hs hg)
  induction l with
  | nil =>
      intro s _ hg
      exact iff_of_true hg trivial
  | cons e rest ih =>
      intro s hs hg
      have he := hl e List.mem_cons_self
      have hrest : ∀ e ∈ rest, E e := fun e h => hl e (List.mem_cons_of_mem _ h)
      by_cases hp : P s e
      · have hstep := ih hrest (inv s e he hs) (keep s e he hs hg hp)
        exact hstep.trans (and_iff_right hp).symm
      · have hbad := hlost hrest (inv s e he hs) (breaks s e he hs hg hp)
        exact iff_of_false hbad fun h => hp h.1

/-- The last event of a run. -/
theorem last {s : σ} {l : List ε} {e : ε} (h : Along step P s (l ++ [e])) : P (l.foldl step s) e :=
  (append.mp h).2.1

end Along
