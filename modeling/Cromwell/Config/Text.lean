/-
Module: Cromwell.Config.Text
Layer: Model
Purpose: The string functions of `lib/misc/BootLibrary.c` that walk over a text in memory and write into it. A text is
  the list of the bytes that can be read from its first address on, and a pointer into it is a position; an access
  that leaves the text, or a store at or behind `limit`, is a fault.
Imports: Mathlib, Cromwell.BootLibrary
Trusted boundary: reviewed against src/lib/misc/BootLibrary.c
Main exports: Fault, strpbrk, strsep, strlen, chrreplace, skipSpaces, stripTrailing, stringAt
-/
import Mathlib
import Cromwell.BootLibrary

namespace Cromwell.Config

/-- What stops a walk over a text: a load or a store outside, or more rounds than were granted. -/
inductive Fault where
  | load
  | store
  | rounds
deriving DecidableEq, Repr

/-- `isspace`. -/
def isspace (c : UInt8) : Bool := c == 0x20 || c == 0x09 || c == 0x0d || c == 0x0a

section Functions

variable (limit : Nat)

/-- `*p`. -/
def loadByte (mem : List UInt8) (p : Nat) : Except Fault UInt8 :=
  match mem[p]? with
  | some b => .ok b
  | none => .error .load

/-- `*p = b`. -/
def storeByte (mem : List UInt8) (p : Nat) (b : UInt8) : Except Fault (List UInt8) :=
  if p < limit ∧ p < mem.length then .ok (mem.set p b) else .error .store

/-- The walk of `strpbrk` over the bytes from position `p` on. -/
def strpbrkIn (ct : List UInt8) : List UInt8 → Nat → Except Fault (Option Nat)
  | [], _ => .error .load
  | b :: rest, p =>
      if b = 0 then .ok none
      else if b ∈ ct then .ok (some p)
      else strpbrkIn ct rest (p + 1)

/-- `strpbrk`. -/
def strpbrk (mem : List UInt8) (cs : Nat) (ct : List UInt8) : Except Fault (Option Nat) :=
  strpbrkIn ct (mem.drop cs) cs

/-- `strsep` with `*s` not NULL: the text afterwards and the new `*s`; the token starts where `*s` was. -/
def strsep (mem : List UInt8) (sbegin : Nat) (ct : List UInt8) : Except Fault (List UInt8 × Option Nat) := do
  match ← strpbrk mem sbegin ct with
  | none => .ok (mem, none)
  | some e =>
      let mem ← storeByte limit mem e 0
      .ok (mem, some (e + 1))

/-- The walk of `strlen`. -/
def strlenIn : List UInt8 → Except Fault Nat
  | [] => .error .load
  | b :: rest => if b = 0 then .ok 0 else (strlenIn rest).map (· + 1)

/-- `strlen`. -/
def strlen (mem : List UInt8) (s : Nat) : Except Fault Nat := strlenIn (mem.drop s)

/-- The string at a position. -/
def stringAt (mem : List UInt8) (s : Nat) : Except Fault (List UInt8) :=
  (strlen mem s).map fun n => (mem.drop s).take n

/-- The walk of `chrreplace`; a byte that was replaced is passed in the next round. -/
def chrreplaceIn (search ch : UInt8) : List UInt8 → Nat → Except Fault (List UInt8)
  | [], _ => .error .load
  | b :: rest, p =>
      if b = 0 then .ok (b :: rest)
      else if b = search then
        if p < limit then (chrreplaceIn search ch rest (p + 1)).map (ch :: ·) else .error .store
      else (chrreplaceIn search ch rest (p + 1)).map (b :: ·)

/-- `chrreplace`. -/
def chrreplace (mem : List UInt8) (string : Nat) (search ch : UInt8) : Except Fault (List UInt8) :=
  (chrreplaceIn limit search ch (mem.drop string) string).map (mem.take string ++ ·)

/-- `while (isspace(*p)) p++`, over the bytes from position `p` on. -/
def skipSpacesIn : List UInt8 → Nat → Except Fault Nat
  | [], _ => .error .load
  | b :: rest, p => if isspace b then skipSpacesIn rest (p + 1) else .ok p

def skipSpaces (mem : List UInt8) (p : Nat) : Except Fault Nat := skipSpacesIn (mem.drop p) p

/-- `while (p != paramdata && isspace(*p)) p--`. -/
def stripTrailing (mem : List UInt8) (paramdata : Nat) : Nat → Except Fault Nat
  | 0 =>
      if 0 = paramdata then .ok 0
      else do
        let b ← loadByte mem 0
        if isspace b then .error .load else .ok 0
  | p + 1 =>
      if p + 1 = paramdata then .ok (p + 1)
      else do
        let b ← loadByte mem (p + 1)
        if isspace b then stripTrailing mem paramdata p else .ok (p + 1)

end Functions

/-! ### What the walks find -/

theorem ok_bind {α β : Type} (a : α) (f : α → Except Fault β) : (Except.ok a >>= f) = f a := rfl

theorem error_bind {α β : Type} (e : Fault) (f : α → Except Fault β) : (Except.error e >>= f) = .error e := rfl

section Walks

variable {l r ct : List UInt8} {p limit : Nat}

theorem strpbrkIn_none (h : ∀ b ∈ l, b ≠ 0 ∧ b ∉ ct) : strpbrkIn ct (l ++ 0 :: r) p = .ok none := by
  induction l generalizing p with
  | nil =>
      rfl
  | cons b l ih =>
      obtain ⟨hzero, hct⟩ := h b List.mem_cons_self
      rw [List.cons_append, strpbrkIn, if_neg hzero, if_neg hct]
      exact ih fun b hb => h b (List.mem_cons_of_mem _ hb)

theorem strpbrkIn_some {c : UInt8} (h : ∀ b ∈ l, b ≠ 0 ∧ b ∉ ct) (hzero : c ≠ 0) (hc : c ∈ ct) :
    strpbrkIn ct (l ++ c :: r) p = .ok (some (p + l.length)) := by
  induction l generalizing p with
  | nil =>
      rw [List.nil_append, strpbrkIn, if_neg hzero, if_pos hc]
      rfl
  | cons b l ih =>
      obtain ⟨hb, hct⟩ := h b List.mem_cons_self
      rw [List.cons_append, strpbrkIn, if_neg hb, if_neg hct, ih fun b hb => h b (List.mem_cons_of_mem _ hb),
        List.length_cons, Nat.add_assoc, Nat.add_comm 1]

theorem strlenIn_eq (h : 0 ∉ l) : strlenIn (l ++ 0 :: r) = .ok l.length := by
  induction l with
  | nil =>
      rfl
  | cons b l ih =>
      rw [List.mem_cons, not_or] at h
      rw [List.cons_append, strlenIn, if_neg (Ne.symm h.1), ih h.2]
      rfl

theorem strlenIn_load (h : 0 ∉ l) : strlenIn l = .error .load := by
  induction l with
  | nil =>
      rfl
  | cons b l ih =>
      rw [List.mem_cons, not_or] at h
      rw [strlenIn, if_neg (Ne.symm h.1), ih h.2]
      rfl

theorem chrreplaceIn_eq {search ch : UInt8} (h : 0 ∉ l) (hlimit : l = [] ∨ p + l.length ≤ limit) :
    chrreplaceIn limit search ch (l ++ 0 :: r) p =
      .ok (l.map (fun b => if b = search then ch else b) ++ 0 :: r) := by
  induction l generalizing p with
  | nil =>
      rfl
  | cons b l ih =>
      rw [List.mem_cons, not_or] at h
      have hbound : p + (l.length + 1) ≤ limit := hlimit.resolve_left (List.cons_ne_nil b l)
      have hrest := ih h.2 (p := p + 1) (Or.inr (by omega))
      rw [List.cons_append, chrreplaceIn, if_neg (Ne.symm h.1), if_pos (show p < limit by omega), hrest]
      by_cases hb : b = search
      · rw [if_pos hb, List.map_cons, if_pos hb]
        rfl
      · rw [if_neg hb, List.map_cons, if_neg hb]
        rfl

theorem skipSpacesIn_eq {c : UInt8} (h : ∀ b ∈ l, isspace b = true) (hc : isspace c = false) :
    skipSpacesIn (l ++ c :: r) p = .ok (p + l.length) := by
  induction l generalizing p with
  | nil =>
      rw [List.nil_append, skipSpacesIn, hc]
      rfl
  | cons b l ih =>
      rw [List.cons_append, skipSpacesIn, h b List.mem_cons_self, if_pos rfl,
        ih fun b hb => h b (List.mem_cons_of_mem _ hb), List.length_cons, Nat.add_assoc, Nat.add_comm 1]

theorem skipSpacesIn_load (h : ∀ b ∈ l, isspace b = true) : skipSpacesIn l p = .error .load := by
  induction l generalizing p with
  | nil =>
      rfl
  | cons b l ih =>
      rw [skipSpacesIn, h b List.mem_cons_self, if_pos rfl]
      exact ih fun b hb => h b (List.mem_cons_of_mem _ hb)

/-- Going back over white space. -/
theorem stripTrailing_spaces {mem : List UInt8} {paramdata k n : Nat}
    (h : ∀ i, k < i → i ≤ k + n → i ≠ paramdata ∧ ∃ b, mem[i]? = some b ∧ isspace b = true) :
    stripTrailing mem paramdata (k + n) = stripTrailing mem paramdata k := by
  induction n with
  | zero =>
      rfl
  | succ n ih =>
      obtain ⟨hne, b, hb, hspace⟩ := h (k + n + 1) (by omega) (by omega)
      rw [← Nat.add_assoc, stripTrailing, if_neg hne, loadByte, hb]
      show (if isspace b = true then stripTrailing mem paramdata (k + n) else _) = _
      rw [if_pos hspace]
      exact ih fun i hlo hhi => h i hlo (by omega)

/-- Going back stops at a byte that is not white space. -/
theorem stripTrailing_stop {mem : List UInt8} {paramdata k : Nat} {b : UInt8} (hb : mem[k]? = some b)
    (hspace : isspace b = false) : stripTrailing mem paramdata k = .ok k := by
  cases k with
  | zero =>
      rw [stripTrailing, loadByte, hb]
      split
      · rfl
      · show (if isspace b = true then _ else _) = _
        rw [hspace]
        rfl
  | succ k =>
      rw [stripTrailing, loadByte, hb]
      split
      · rfl
      · show (if isspace b = true then _ else _) = _
        rw [hspace]
        rfl

theorem storeByte_append {pre post : List UInt8} {c b : UInt8} (h : pre.length < limit) :
    storeByte limit (pre ++ c :: post) pre.length b = .ok (pre ++ b :: post) := by
  have hlength : pre.length < (pre ++ c :: post).length := by simp
  rw [storeByte, if_pos ⟨h, hlength⟩, List.set_append_right _ _ (Nat.le_refl _), Nat.sub_self, List.set_cons_zero]

theorem stringAt_append (pre : List UInt8) (h : 0 ∉ l) : stringAt (pre ++ (l ++ 0 :: r)) pre.length = .ok l := by
  rw [stringAt, strlen, List.drop_left, strlenIn_eq h]
  exact congrArg Except.ok (List.take_left ..)

end Walks

end Cromwell.Config
