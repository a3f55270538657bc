/-
Module: Cromwell.Hdd.Identity
Layer: Model and proofs
Purpose: `copy_swap_trim` of `drivers/ide/BootHddKey.c`, which makes the strings of a drive's identity out of its words: the
  bytes of each pair change places, in a copy or in place, and the spaces at the end go. The terminator is stored where
  the search for a last character ends, and so only when there is one.
Imports: Cromwell.Lib.Buffer
Trusted boundary: reviewed against src/drivers/ide/BootHddKey.c; human-reviewed statement (swapPairs, Trims)
Main exports: copySwapTrim, swapPairs, Trims, copySwapTrim_trims_iff
-/
import Cromwell.Lib.Buffer

namespace Cromwell.Hdd

open ByteMemory

/-- `for (i=0; i < len; i+=2)`: the two bytes are read before the second one is stored, to allow swap in place. -/
def swapLoop (dst src len : Nat) : Nat → Nat → Mem → Mem
  | 0, _, m => m
  | fuel + 1, i, m =>
      if i < len then
        let tmp := m (src + i)
        let m := m.store (dst + i) (m (src + (i + 1)))
        swapLoop dst src len fuel (i + 2) (m.store (dst + (i + 1)) tmp)
      else m

/-- `for (i=len; i>0; --i)`: `i` and the memory when the loop is left. The pointer stands before the string, so that
    `dst[i]` is its byte `i - 1`. -/
def trimLoop (dst : Nat) : Nat → Mem → Nat × Mem
  | 0, m => (0, m)
  | i + 1, m => if m (dst + i) ≠ 0x20 then (i + 1, m.store (dst + (i + 1)) 0) else trimLoop dst i m

/-- `copy_swap_trim`: the length that is returned, and the memory. -/
def copySwapTrim (dst src len : Nat) (m : Mem) : Nat × Mem := trimLoop dst len (swapLoop dst src len len 0 m)

/-! ### What it is for -/

/-- The bytes of each pair, the other way around. -/
def swapPairs : List UInt8 → List UInt8
  | a :: b :: bytes => b :: a :: swapPairs bytes
  | bytes => bytes

def isSpace (b : UInt8) : Bool := b == 0x20

/-- The text of the words: without the spaces at its end. -/
def identityText (bytes : List UInt8) : List UInt8 := (swapPairs bytes).rdropWhile isSpace

/-- The length is that of the text, and the text is stored with a zero behind it. -/
structure Trims (dst src len : Nat) (m : Mem) : Prop where
  length : (copySwapTrim dst src len m).1 = (identityText (m.bytesFrom src len)).length
  text : (copySwapTrim dst src len m).2.bytesFrom dst (copySwapTrim dst src len m).1 =
    identityText (m.bytesFrom src len)
  terminated : (copySwapTrim dst src len m).2 (dst + (copySwapTrim dst src len m).1) = 0

/-! ### The swap -/

/-- The other place in a pair. -/
def other (x : Nat) : Nat := if x % 2 = 0 then x + 1 else x - 1

/-- The loop from an even place on: it swaps the rest, and leaves everything else. -/
theorem swapLoop_spec {dst src len : Nat} (heven : len % 2 = 0)
    (hplace : dst = src ∨ dst + len + 1 ≤ src ∨ src + len ≤ dst) {fuel i : Nat} (hi : i % 2 = 0)
    (hfuel : len ≤ i + fuel) (m : Mem) :
    (∀ x, i ≤ x → x < len → swapLoop dst src len fuel i m (dst + x) = m (src + other x)) ∧
      ∀ y, ¬ (dst + i ≤ y ∧ y < dst + len) → swapLoop dst src len fuel i m y = m y := by
  induction fuel generalizing i m with
  | zero => exact ⟨fun x hlo hhi => absurd hhi (by omega), fun _ _ => rfl⟩
  | succ fuel ih =>
      rw [swapLoop]
      by_cases hin : i < len
      · rw [if_pos hin]
        obtain ⟨hswapped, hkept⟩ := ih (show (i + 2) % 2 = 0 by omega) (by omega)
          ((m.store (dst + i) (m (src + (i + 1)))).store (dst + (i + 1)) (m (src + i)))
        constructor
        · intro x hlo hhi
          by_cases hfirst : x = i
          · subst hfirst
            rw [hkept _ (by omega), Mem.store_of_ne (by omega), Mem.store_self, other, if_pos hi]
          · by_cases hsecond : x = i + 1
            · subst hsecond
              rw [hkept _ (by omega), Mem.store_self, other, if_neg (by omega), Nat.add_sub_cancel]
            · -- What is still to be read lies behind the pair.
              have hother : i + 2 ≤ other x ∧ other x < len := by
                unfold other
                split <;> omega
              rw [hswapped x (by omega) hhi, Mem.store_of_ne (by omega), Mem.store_of_ne (by omega)]
        · intro y hy
          rw [hkept y (by omega), Mem.store_of_ne (by omega), Mem.store_of_ne (by omega)]
      · rw [if_neg hin]
        exact ⟨fun x hlo hhi => absurd hhi (by omega), fun _ _ => rfl⟩

/-- The pairs of a string in the memory. -/
theorem swapPairs_bytesFrom (m : Mem) (a k : Nat) :
    swapPairs (m.bytesFrom a (2 * k)) = Mem.bytesFrom (fun x => m (a + other x)) 0 (2 * k) := by
  induction k generalizing a with
  | zero => rfl
  | succ k ih =>
      have hrest : Mem.bytesFrom (fun x => m (a + other x)) (0 + 2) (2 * k) =
          Mem.bytesFrom (fun x => m (a + 2 + other x)) 0 (2 * k) := by
        apply Mem.bytesFrom_congr
        intro i _
        have hother : other (0 + 2 + i) = 2 + other (0 + i) := by
          unfold other
          split <;> split <;> omega
        rw [hother, Nat.add_assoc]
      rw [show 2 * (k + 1) = 2 * k + 2 by ring, Mem.bytesFrom_cons, Mem.bytesFrom_cons, Mem.bytesFrom_cons,
        Mem.bytesFrom_cons, swapPairs, ih, hrest]
      rfl

/-- The copy holds the swapped string. -/
theorem swapLoop_bytes {dst src len : Nat} (heven : len % 2 = 0)
    (hplace : dst = src ∨ dst + len + 1 ≤ src ∨ src + len ≤ dst) (m : Mem) :
    (swapLoop dst src len len 0 m).bytesFrom dst len = swapPairs (m.bytesFrom src len) := by
  obtain ⟨k, rfl⟩ : ∃ k, len = 2 * k := ⟨len / 2, by omega⟩
  obtain ⟨hswapped, -⟩ := swapLoop_spec heven hplace (show 0 % 2 = 0 from rfl) (Nat.le_add_left _ 0) m
  rw [swapPairs_bytesFrom]
  apply Mem.bytesFrom_congr
  intro i hi
  rw [Nat.zero_add]
  exact hswapped i (Nat.zero_le i) hi

/-! ### The trimming -/

theorem isSpace_iff {b : UInt8} : isSpace b = true ↔ b = 0x20 := beq_iff_eq

/-- The search ends behind the last character, and stores the terminator when it has found one. -/
theorem trimLoop_spec (dst len : Nat) (m : Mem) :
    (trimLoop dst len m).1 = ((m.bytesFrom dst len).rdropWhile isSpace).length ∧
      (trimLoop dst len m).2 =
        if (m.bytesFrom dst len).rdropWhile isSpace = [] then m
        else m.store (dst + ((m.bytesFrom dst len).rdropWhile isSpace).length) 0 := by
  induction len with
  | zero => exact ⟨rfl, rfl⟩
  | succ len ih =>
      rw [trimLoop, Mem.bytesFrom_succ]
      by_cases hspace : m (dst + len) = 0x20
      · rw [if_neg (not_not_intro hspace), List.rdropWhile_concat_pos _ _ _ (isSpace_iff.mpr hspace)]
        exact ih
      · rw [if_pos hspace, List.rdropWhile_concat_neg _ _ _ (fun h => hspace (isSpace_iff.mp h)), List.length_append,
          Mem.bytesFrom_length, List.length_singleton, if_neg (List.append_ne_nil_of_right_ne_nil _ (List.cons_ne_nil _ _))]
        exact ⟨rfl, rfl⟩

/-- Nothing is left of a string without characters. -/
theorem identityText_eq_nil {m : Mem} {src len : Nat} (heven : len % 2 = 0) :
    identityText (m.bytesFrom src len) = [] ↔ ∀ i < len, m (src + i) = 0x20 := by
  obtain ⟨k, rfl⟩ : ∃ k, len = 2 * k := ⟨len / 2, by omega⟩
  have hother : ∀ x < 2 * k, other x < 2 * k ∧ other (other x) = x := by
    intro x hx
    unfold other
    split <;> split <;> omega
  rw [identityText, swapPairs_bytesFrom, List.rdropWhile_eq_nil_iff]
  simp only [Mem.bytesFrom, List.mem_map, List.mem_range, forall_exists_index, and_imp, forall_apply_eq_imp_iff₂,
    isSpace_iff, Nat.zero_add]
  constructor
  · intro h i hi
    obtain ⟨hin, hback⟩ := hother i hi
    rw [← hback]
    exact h (other i) hin
  · intro h i hi
    exact h (other i) (hother i hi).1

/-! ### The terminator -/

/-- For every even length, every string and every place of the copy: it is the text with its terminator exactly when there
    is a character in it, or when it is empty and a zero is there already. -/
theorem copySwapTrim_trims_iff {dst src len : Nat} (heven : len % 2 = 0)
    (hplace : dst = src ∨ dst + len + 1 ≤ src ∨ src + len ≤ dst) (m : Mem) :
    Trims dst src len m ↔ (∃ i < len, m (src + i) ≠ 0x20) ∨ (len = 0 ∧ m dst = 0) := by
  have hswapped := swapLoop_bytes heven hplace m
  obtain ⟨hlength, hmem⟩ := trimLoop_spec dst len (swapLoop dst src len len 0 m)
  rw [hswapped] at hlength hmem
  change (copySwapTrim dst src len m).1 = (identityText (m.bytesFrom src len)).length at hlength
  change (copySwapTrim dst src len m).2 = if identityText (m.bytesFrom src len) = [] then swapLoop dst src len len 0 m
    else (swapLoop dst src len len 0 m).store (dst + (identityText (m.bytesFrom src len)).length) 0 at hmem
  have hprefix : identityText (m.bytesFrom src len) <+: (swapLoop dst src len len 0 m).bytesFrom dst len := by
    rw [hswapped]
    exact List.rdropWhile_prefix _ _
  by_cases hblank : ∀ i < len, m (src + i) = 0x20
  · -- The search finds nothing, and stores nothing.
    have hnil := (identityText_eq_nil heven).mpr hblank
    rw [hnil, if_pos rfl] at hmem
    rw [hnil, List.length_nil] at hlength
    constructor
    · intro h
      have hzero := h.terminated
      rw [hlength, hmem, Nat.add_zero] at hzero
      cases len with
      | zero => exact Or.inr ⟨rfl, hzero⟩
      | succ len =>
          obtain ⟨hfirst, -⟩ := swapLoop_spec heven hplace (show 0 % 2 = 0 from rfl) (Nat.le_add_left _ 0) m
          have hspace := (hfirst 0 (Nat.le_refl 0) (Nat.succ_pos len)).trans (hblank 1 (by omega))
          exact absurd (hspace.symm.trans hzero) (by decide)
    · rintro (⟨i, hi, hchar⟩ | ⟨rfl, hzero⟩)
      · exact absurd (hblank i hi) hchar
      · exact ⟨rfl, rfl, hzero⟩
  · have hne : identityText (m.bytesFrom src len) ≠ [] := fun hnil => hblank ((identityText_eq_nil heven).mp hnil)
    rw [if_neg hne] at hmem
    push Not at hblank
    refine iff_of_true ⟨hlength, ?_, ?_⟩ (Or.inl hblank)
    · rw [hlength, hmem]
      refine Eq.trans (Mem.bytesFrom_congr fun i hi => ?_) (Mem.bytesFrom_start hprefix)
      exact Mem.store_of_ne (by omega)
    · rw [hlength, hmem, Mem.store_self]

/-- `IBM` in the words of a drive, swapped in place. -/
theorem copySwapTrim_trims_ibm : Trims 0 0 4 fun i => [0x42, 0x49, 0x20, 0x4D].getD i 0 :=
  (copySwapTrim_trims_iff (by decide) (Or.inl rfl) _).mpr (Or.inl ⟨0, by decide, by decide⟩)

/-- A string of spaces keeps them: there is no terminator at its beginning. -/
theorem blank_not_terminated : ¬ Trims 0 0 2 fun _ => 0x20 := by
  intro h
  exact absurd h.terminated (by decide)

end Cromwell.Hdd
