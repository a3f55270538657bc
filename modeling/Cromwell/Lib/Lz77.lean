/-
Module: Cromwell.Lib.Lz77
Layer: Lib
Purpose: Back references into what has been produced so far: the meaning of a sequence of literals and copies over
  any alphabet, and when that meaning does not depend on what stood before the sequence.
Imports: Mathlib
Trusted boundary: none
Main exports: Item, back, copyBack, expand, expand_append, expand_selfContained, drop_expand
-/
import Mathlib

namespace Lz77

variable {α : Type} [Inhabited α]

/-- A literal, or `len` symbols from `dist` back. -/
inductive Item (α : Type) where
  | literal (a : α)
  | copy (dist len : Nat)
deriving DecidableEq, Repr

/-- The symbol at a distance from the end. -/
def back (out : List α) (dist : Nat) : α := out.getD (out.length - dist) default

/-- Repeat what stands `dist` back, symbol by symbol: a copy may reach into itself. -/
def copyBack (dist : Nat) : Nat → List α → List α
  | 0, out => out
  | n + 1, out => copyBack dist n (out ++ [back out dist])

/-- The meaning of one item. -/
def Item.expand (out : List α) : Item α → List α
  | .literal a => out ++ [a]
  | .copy dist len => copyBack dist len out

/-- The meaning of a sequence. -/
def expand (out : List α) (items : List (Item α)) : List α := items.foldl Item.expand out

@[simp]
theorem expand_nil (out : List α) : expand out [] = out := rfl

@[simp]
theorem expand_cons (out : List α) (x : Item α) (items : List (Item α)) :
    expand out (x :: items) = expand (x.expand out) items := rfl

theorem expand_append (out : List α) (items items' : List (Item α)) :
    expand out (items ++ items') = expand (expand out items) items' := List.foldl_append

theorem length_copyBack (dist n : Nat) (out : List α) : (copyBack dist n out).length = out.length + n := by
  induction n generalizing out with
  | zero => rfl
  | succ n ih =>
      rw [copyBack, ih, List.length_append, List.length_singleton]
      ring

theorem copyBack_add (dist n m : Nat) (out : List α) :
    copyBack dist (n + m) out = copyBack dist m (copyBack dist n out) := by
  induction n generalizing out with
  | zero => rw [Nat.zero_add, copyBack]
  | succ n ih => rw [Nat.succ_add, copyBack, ih, copyBack]

/-- No item reaches further back than what was produced, counted from `n` on. -/
def SelfContained : Nat → List (Item α) → Prop
  | _, [] => True
  | n, .literal _ :: items => SelfContained (n + 1) items
  | n, .copy dist len :: items => 1 ≤ dist ∧ dist ≤ n ∧ SelfContained (n + len) items

theorem back_append {before out : List α} {dist : Nat} (h : dist ≤ out.length) :
    back (before ++ out) dist = back out dist := by
  rw [back, back, List.length_append, List.getD_append_right _ _ _ _ (by omega)]
  congr 1
  omega

theorem copyBack_history {before out : List α} {dist : Nat} (n : Nat) (h : dist ≤ out.length) :
    copyBack dist n (before ++ out) = before ++ copyBack dist n out := by
  induction n generalizing out with
  | zero => rfl
  | succ n ih =>
      have hlong : dist ≤ (out ++ [back out dist]).length := by
        rw [List.length_append]
        exact h.trans (Nat.le_add_right _ _)
      rw [copyBack, copyBack, back_append h, List.append_assoc, ih hlong]

/-- What a self-contained sequence means does not depend on what stands before it. -/
theorem expand_selfContained {before : List α} {items : List (Item α)} :
    ∀ {out : List α}, SelfContained out.length items → expand (before ++ out) items = before ++ expand out items := by
  induction items with
  | nil => exact fun _ => rfl
  | cons x items ih =>
      intro out h
      cases x with
      | literal a =>
          have hrest : SelfContained (out ++ [a]).length items := by
            rw [List.length_append]
            exact h
          rw [expand_cons, expand_cons, Item.expand, Item.expand, List.append_assoc, ih hrest]
      | copy dist len =>
          have hrest : SelfContained (copyBack dist len out).length items := by
            rw [length_copyBack]
            exact h.2.2
          rw [expand_cons, expand_cons, Item.expand, Item.expand, copyBack_history len h.2.1, ih hrest]

theorem drop_expand {before : List α} {items : List (Item α)} (h : SelfContained 0 items) :
    (expand before items).drop before.length = expand [] items := by
  have hexpand : expand (before ++ []) items = before ++ expand [] items := expand_selfContained h
  rw [List.append_nil] at hexpand
  rw [hexpand, List.drop_left]

end Lz77
