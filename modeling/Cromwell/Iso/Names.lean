/-
Module: Cromwell.Iso.Names
Layer: Proofs
Purpose: The comparisons that the walk makes, as facts about names: a record is taken for the path when its name is the
  path, and for a directory on it when the path goes on behind its name with a slash. Names without a slash are
  compared one by one.
Imports: Cromwell.Iso.Tree, Cromwell.Lib.Split
Trusted boundary: SameRecord
Main exports: isPath_iff, isOnPath_iff, name_eq_path_iff, name_slash_prefix_iff, SameRecord
-/
import Cromwell.Iso.Tree
import Cromwell.Lib.Split

namespace Cromwell.Iso

open ByteMemory
open Cromwell.BootLibrary (memcmp memcmp_eq_zero)

/-! ### Comparisons -/

theorem memcmp_zero_iff (cs ct : Nat → UInt8) (count : Nat) :
    memcmp cs ct count = 0 ↔ ∀ i < count, cs i = ct i := by
  rw [memcmp_eq_zero, Mem.bytesFrom, Mem.bytesFrom, List.map_inj_left]
  simp

theorem stringBytes_of_lt {string : List UInt8} {i : Nat} (h : i < string.length) :
    stringBytes string i = string[i] := by
  rw [stringBytes, List.getD_eq_getElem _ _ h]

theorem stringBytes_of_le {string : List UInt8} {i : Nat} (h : string.length ≤ i) : stringBytes string i = 0 := by
  rw [stringBytes, List.getD_eq_default _ _ h]

/-- The name of the record is the path. -/
theorem isPath_iff {search newfilename : List UInt8} (hsearch : 0 ∉ search) :
    IsPath search newfilename ↔ newfilename = search := by
  rw [IsPath, memcmp_zero_iff]
  constructor
  · rintro ⟨hle, hbytes⟩
    have hlength : newfilename.length = search.length := by
      by_contra hne
      have hlt : newfilename.length < search.length := Nat.lt_of_le_of_ne hle hne
      have hend := hbytes _ hlt
      rw [stringBytes_of_le (Nat.le_refl _), stringBytes_of_lt hlt] at hend
      exact hsearch (hend ▸ List.getElem_mem hlt)
    apply List.ext_getElem hlength
    intro i hi hi'
    have hbyte := hbytes i hi'
    rw [stringBytes_of_lt hi, stringBytes_of_lt hi'] at hbyte
    exact hbyte
  · rintro rfl
    exact ⟨Nat.le_refl _, fun _ _ => rfl⟩

/-- The path goes on behind the name of the record with a slash. -/
theorem isOnPath_iff {search newfilename : List UInt8} {dir : IsoDirectoryRecord} :
    IsOnPath search newfilename dir ↔
      dir.isDirectory = true ∧ 1 < dir.nameLen ∧ newfilename ++ [0x2f] <+: search := by
  rw [IsOnPath, IsoDirectoryRecord.isDirectory, decide_eq_true_iff]
  apply and_congr_right
  intro _
  apply and_congr_right
  intro _
  rw [memcmp_zero_iff]
  constructor
  · rintro ⟨hlt, hbytes, hslash⟩
    rw [List.prefix_iff_eq_take]
    apply List.ext_getElem
    · simp
      omega
    · intro i hi hi'
      rw [List.getElem_take]
      rw [List.length_append, List.length_singleton] at hi
      have hi'' : i < search.length := by omega
      rcases Nat.lt_succ_iff_lt_or_eq.mp hi with hfront | rfl
      · rw [List.getElem_append_left hfront]
        have hbyte := hbytes i hfront
        rw [stringBytes_of_lt hi'', stringBytes_of_lt hfront] at hbyte
        exact hbyte.symm
      · rw [stringBytes_of_lt hlt] at hslash
        simp [hslash]
  · rintro ⟨rest, rfl⟩
    refine ⟨by simp, fun i hi => ?_, ?_⟩
    · rw [stringBytes_of_lt hi, stringBytes_of_lt (by simp; omega),
        List.getElem_append_left (Nat.lt_of_lt_of_le hi (by simp)), List.getElem_append_left hi]
    · rw [stringBytes_of_lt (by simp)]
      simp

/-! ### Names without a slash -/

theorem pathString_cons (name : List UInt8) (rest : List (List UInt8)) :
    pathString (name :: rest) = 0x2f :: (name ++ pathString rest) := by
  rw [pathString, List.flatMap_cons]
  rfl

theorem zero_notMem_pathString {path : List (List UInt8)} (h : ∀ name ∈ path, IsComponent name) :
    0 ∉ pathString path := by
  intro hmem
  rw [pathString, List.mem_flatMap] at hmem
  obtain ⟨name, hname, hzero⟩ := hmem
  rcases List.mem_cons.mp hzero with hslash | hzero
  · exact absurd hslash (by decide)
  · exact (h name hname).2.2 hzero

/-- A name behind that of its directory is the path. -/
theorem name_eq_path_iff {filename name translated : List UInt8} {rest : List (List UInt8)}
    (htranslated : 0x2f ∉ translated) :
    filename ++ 0x2f :: translated = filename ++ pathString (name :: rest) ↔ translated = name ∧ rest = [] := by
  rw [pathString_cons, List.append_cancel_left_eq, List.cons.injEq]
  cases rest with
  | nil => simp [pathString]
  | cons next rest =>
      constructor
      · rintro ⟨-, heq⟩
        rw [pathString_cons] at heq
        exact absurd (by rw [heq]; simp) htranslated
      · rintro ⟨-, h⟩
        cases h

/-- The path goes on behind such a name. -/
theorem name_slash_prefix_iff {filename name translated : List UInt8} {rest : List (List UInt8)}
    (htranslated : 0x2f ∉ translated) (hname : 0x2f ∉ name) :
    filename ++ 0x2f :: translated ++ [0x2f] <+: filename ++ pathString (name :: rest) ↔
      translated = name ∧ rest ≠ [] := by
  rw [pathString_cons, List.append_assoc, List.prefix_append_right_inj, List.cons_append, List.cons_prefix_cons]
  cases rest with
  | nil =>
      constructor
      · rintro ⟨-, behind, heq⟩
        rw [pathString, List.flatMap_nil, List.append_nil] at heq
        exact absurd (by rw [← heq]; simp) hname
      · rintro ⟨-, h⟩
        exact absurd rfl h
  | cons next rest =>
      rw [pathString_cons]
      constructor
      · rintro ⟨-, behind, heq⟩
        rw [List.append_assoc, List.singleton_append] at heq
        exact ⟨front_eq_of_append_eq htranslated hname heq, List.cons_ne_nil _ _⟩
      · rintro ⟨rfl, -⟩
        exact ⟨rfl, next ++ pathString rest, by simp⟩

/-! ### Names of records -/

/-- A byte that becomes a slash was one. -/
theorem lower_ne_slash {c : UInt8} (h : c ≠ 0x2f) : (if isupper c then tolower c else c) ≠ 0x2f := by
  split
  case isFalse => exact h
  case isTrue hupper =>
    have hrange : (c - 0x41).toNat < 26 := of_decide_eq_true hupper
    rw [tolower, if_pos hrange]
    intro hslash
    have hc : c = 0x2f - 0x20 := eq_sub_of_add_eq hslash
    rw [hc] at hrange
    exact absurd hrange (by decide)

/-- The translation looks at the bytes of the name only. -/
theorem translateFrom_congr {old old' : Nat → UInt8} {len : Nat} (h : ∀ i < len, old i = old' i) {left i : Nat}
    (hleft : i + left = len) : translateFrom old len left i = translateFrom old' len left i := by
  induction left generalizing i with
  | zero => rfl
  | succ left ih =>
      have hrest := ih (i := i + 1) (by omega)
      have hversion : ∀ c : UInt8, (c = 0x2e ∧ i + 3 = len ∧ old (i + 1) = 0x3b ∧ old (i + 2) = 0x31) ↔
          (c = 0x2e ∧ i + 3 = len ∧ old' (i + 1) = 0x3b ∧ old' (i + 2) = 0x31) := by
        intro c
        apply and_congr_right
        intro _
        apply and_congr_right
        intro hthree
        rw [h (i + 1) (by omega), h (i + 2) (by omega)]
      have hnumber : ∀ c : UInt8, (c = 0x3b ∧ i + 2 = len ∧ old (i + 1) = 0x31) ↔
          (c = 0x3b ∧ i + 2 = len ∧ old' (i + 1) = 0x31) := by
        intro c
        apply and_congr_right
        intro _
        apply and_congr_right
        intro htwo
        rw [h (i + 1) (by omega)]
      simp only [translateFrom, h i (by omega), hversion, hnumber, hrest]

theorem slash_notMem_translateFrom {old : Nat → UInt8} {len : Nat} (h : ∀ i < len, old i ≠ 0x2f) {left i : Nat}
    (hleft : i + left = len) : 0x2f ∉ translateFrom old len left i := by
  induction left generalizing i with
  | zero => exact List.not_mem_nil
  | succ left ih =>
      have hlower := lower_ne_slash (h i (by omega))
      rw [translateFrom]
      dsimp only
      generalize (if isupper (old i) then tolower (old i) else old i) = c at hlower
      split
      case isTrue => exact List.not_mem_nil
      split
      case isTrue => exact List.not_mem_nil
      split
      case isTrue => exact List.not_mem_nil
      rw [List.mem_cons, not_or]
      refine ⟨?_, ih (by omega)⟩
      split
      · decide
      · exact Ne.symm hlower

theorem slash_notMem_translated {dir : IsoDirectoryRecord} (h : ∀ i < dir.nameLen, dir.name i ≠ 0x2f) :
    0x2f ∉ dir.translated := slash_notMem_translateFrom h (Nat.zero_add _)

/-- Two records with the same fields and the same name. -/
def SameRecord (dir dir' : IsoDirectoryRecord) : Prop := ∀ i < 33 + dir.nameLen, dir' i = dir i

namespace SameRecord

variable {dir dir' : IsoDirectoryRecord}

theorem recordLength (h : SameRecord dir dir') : dir'.recordLength = dir.recordLength := by
  rw [IsoDirectoryRecord.recordLength, h 0 (by omega), IsoDirectoryRecord.recordLength]

theorem nameLen (h : SameRecord dir dir') : dir'.nameLen = dir.nameLen := by
  rw [IsoDirectoryRecord.nameLen, h 32 (by omega), IsoDirectoryRecord.nameLen]

theorem flags (h : SameRecord dir dir') : dir'.isDirectory = dir.isDirectory := by
  rw [IsoDirectoryRecord.isDirectory, IsoDirectoryRecord.flags, h 25 (by omega), IsoDirectoryRecord.isDirectory,
    IsoDirectoryRecord.flags]

theorem extent (h : SameRecord dir dir') : dir'.extent = dir.extent := by
  simp only [IsoDirectoryRecord.extent, Mem.loadWord]
  rw [h 2 (by omega), h (2 + 1) (by omega), h (2 + 2) (by omega), h (2 + 3) (by omega)]

theorem size (h : SameRecord dir dir') : dir'.size = dir.size := by
  simp only [IsoDirectoryRecord.size, Mem.loadWord]
  rw [h 10 (by omega), h (10 + 1) (by omega), h (10 + 2) (by omega), h (10 + 3) (by omega)]

theorem named (h : SameRecord dir dir') (hname : 0 < dir.nameLen) : dir'.named = dir.named := by
  rw [IsoDirectoryRecord.named, IsoDirectoryRecord.name, h (33 + 0) (by omega), IsoDirectoryRecord.named,
    IsoDirectoryRecord.name]

theorem translated (h : SameRecord dir dir') : dir'.translated = dir.translated := by
  rw [IsoDirectoryRecord.translated, IsoDirectoryRecord.translated, h.nameLen]
  apply translateFrom_congr _ (Nat.zero_add _)
  intro i hi
  exact h (33 + i) (by omega)

/-- The record that is handed to `read_file` is the same. -/
theorem write (h : SameRecord dir dir') (dirFound : IsoDirectoryRecord) :
    dirFound.write 0 IsoDirectoryRecord.sizeof dir' = dirFound.write 0 IsoDirectoryRecord.sizeof dir := by
  apply Mem.write_congr
  intro i hi
  exact h i (Nat.lt_of_lt_of_le hi (Nat.le_add_right 33 _))

end SameRecord

end Cromwell.Iso
