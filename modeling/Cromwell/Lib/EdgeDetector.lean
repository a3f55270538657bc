/-
Module: Cromwell.Lib.EdgeDetector
Layer: Lib
Purpose: Detectors of edges with a dead zone. A detector remembers whether it has reported a press; it reports a press
  once, and then nothing but the release. What it reports along a run of levels alternates, and levels without a
  release give at most one press.
Imports: Mathlib
Trusted boundary: none
Main exports: EdgeDetector.Level, EdgeDetector.report, EdgeDetector.next, EdgeDetector.reports, EdgeDetector.Alternate,
  EdgeDetector.reports_alternate, EdgeDetector.reports_press_once
-/
import Mathlib

namespace EdgeDetector

/-- What a detector is shown. -/
inductive Level where
  | released
  | between
  | pressed
deriving DecidableEq, Repr

/-- The report of a detector that does or does not hold a press: 1 for a press, -1 for a release. -/
def report (held : Bool) : Level → Int
  | .pressed => if held then 0 else 1
  | .released => if held then -1 else 0
  | .between => 0

/-- Whether the detector holds a press afterwards. -/
def next (held : Bool) : Level → Bool
  | .pressed => true
  | .released => false
  | .between => held

/-- The reports for a run of levels. -/
def reports : Bool → List Level → List Int
  | _, [] => []
  | held, level :: levels => report held level :: reports (next held level) levels

/-- The reports of an edge. -/
def edges (rs : List Int) : List Int := rs.filter fun r => r ≠ 0

/-- Numbers that alternate in sign, from the first one on. -/
def Alternate : Int → List Int → Prop
  | _, [] => True
  | first, r :: rs => r = first ∧ Alternate (-first) rs

/-- The edge that a detector can report next. -/
def nextEdge (held : Bool) : Int := if held then -1 else 1

/-- A report is nothing and changes nothing, or it is the next edge. -/
theorem report_cases (held : Bool) (level : Level) :
    report held level = 0 ∧ next held level = held ∨
      report held level = nextEdge held ∧ next held level = !held := by
  cases held with
  | false =>
      cases level with
      | released => exact Or.inl ⟨rfl, rfl⟩
      | between => exact Or.inl ⟨rfl, rfl⟩
      | pressed => exact Or.inr ⟨rfl, rfl⟩
  | true =>
      cases level with
      | released => exact Or.inr ⟨rfl, rfl⟩
      | between => exact Or.inl ⟨rfl, rfl⟩
      | pressed => exact Or.inl ⟨rfl, rfl⟩

theorem nextEdge_ne_zero (held : Bool) : nextEdge held ≠ 0 := by
  cases held with
  | false => decide
  | true => decide

theorem nextEdge_not (held : Bool) : nextEdge (!held) = -nextEdge held := by
  cases held with
  | false => rfl
  | true => rfl

/-- The edges alternate. -/
theorem reports_alternate (held : Bool) (levels : List Level) :
    Alternate (nextEdge held) (edges (reports held levels)) := by
  induction levels generalizing held with
  | nil =>
      trivial
  | cons level levels ih =>
      rw [reports, edges, List.filter_cons]
      rcases report_cases held level with ⟨hreport, hnext⟩ | ⟨hreport, hnext⟩
      · rw [hreport, hnext, if_neg (by decide)]
        exact ih held
      · rw [hreport, hnext, if_pos (decide_eq_true (nextEdge_ne_zero held))]
        refine ⟨rfl, ?_⟩
        rw [← nextEdge_not]
        exact ih _

/-- Without a release a press is reported at most once, and not at all by a detector that holds one. -/
theorem reports_press_once (held : Bool) {levels : List Level} (h : Level.released ∉ levels) :
    (reports held levels).count 1 ≤ if held then 0 else 1 := by
  induction levels generalizing held with
  | nil =>
      exact Nat.zero_le _
  | cons level levels ih =>
      rw [List.mem_cons, not_or] at h
      have hrest := ih (next held level) h.2
      rw [reports, List.count_cons]
      cases level with
      | released =>
          exact absurd rfl h.1
      | between =>
          exact hrest
      | pressed =>
          cases held with
          | true => exact hrest
          | false => exact Nat.succ_le_succ hrest

end EdgeDetector
