/-
Module: Cromwell.Lib.Split
Layer: Lib
Purpose: A list cut at every occurrence of an element, part by part.
Imports: Mathlib
Trusted boundary: none
Main exports: splitOn_of_notMem, splitOn_append, front_eq_of_append_eq, split_induction, notMem_of_mem_splitOn,
  mem_of_mem_splitOn, length_splitOn_le
-/
import Mathlib

namespace Cromwell

variable {α : Type} [BEq α] [LawfulBEq α] {a : α} {l : List α}

theorem splitOn_of_notMem (h : a ∉ l) : l.splitOn a = [l] :=
  List.splitOnP_eq_singleton fun _ hb => beq_false_of_ne fun heq => h (heq ▸ hb)

theorem splitOn_append (rest : List α) (h : a ∉ l) : (l ++ a :: rest).splitOn a = l :: rest.splitOn a := by
  have hother : ∀ b ∈ l, (b == a) = false := fun b hb => beq_false_of_ne fun heq => h (heq ▸ hb)
  exact List.splitOnP_append_cons_of_forall_mem hother a (beq_self_eq_true a) rest

/-- The part in front of the first occurrence. -/
theorem front_eq_of_append_eq {l' rest rest' : List α} (h : a ∉ l) (h' : a ∉ l')
    (heq : l ++ a :: rest = l' ++ a :: rest') : l = l' := by
  have hparts := congrArg (List.splitOn a) heq
  rw [splitOn_append rest h, splitOn_append rest' h'] at hparts
  exact (List.cons.inj hparts).1

/-- Induction over the parts of a list. -/
theorem split_induction {P : List α → Prop} (a : α) (last : ∀ l, a ∉ l → P l)
    (cons : ∀ l rest, a ∉ l → P rest → P (l ++ a :: rest)) (l : List α) : P l := by
  induction hn : l.length using Nat.strong_induction_on generalizing l with
  | _ n ih =>
      by_cases h : a ∈ l
      · obtain ⟨front, rest, rfl, hfront⟩ := List.eq_append_cons_of_mem h
        rw [List.length_append, List.length_cons] at hn
        exact cons front rest hfront (ih rest.length (by omega) rest rfl)
      · exact last l h

theorem notMem_of_mem_splitOn {part : List α} (h : part ∈ l.splitOn a) : a ∉ part := by
  induction l using split_induction a with
  | last l hl =>
      rw [splitOn_of_notMem hl, List.mem_singleton] at h
      exact h ▸ hl
  | cons l rest hl ih =>
      rw [splitOn_append rest hl, List.mem_cons] at h
      rcases h with rfl | h
      · exact hl
      · exact ih h

theorem mem_of_mem_splitOn {part : List α} {b : α} (hpart : part ∈ l.splitOn a) (hb : b ∈ part) : b ∈ l := by
  induction l using split_induction a with
  | last l hl =>
      rw [splitOn_of_notMem hl, List.mem_singleton] at hpart
      exact hpart ▸ hb
  | cons l rest hl ih =>
      rw [splitOn_append rest hl, List.mem_cons] at hpart
      rcases hpart with rfl | hpart
      · exact List.mem_append_left _ hb
      · exact List.mem_append_right _ (List.mem_cons_of_mem _ (ih hpart))

theorem length_splitOn_le (a : α) (l : List α) : (l.splitOn a).length ≤ l.length + 1 := by
  induction l using split_induction a with
  | last l hl =>
      rw [splitOn_of_notMem hl, List.length_singleton]
      omega
  | cons l rest hl ih =>
      rw [splitOn_append rest hl, List.length_cons, List.length_append, List.length_cons]
      omega

end Cromwell
