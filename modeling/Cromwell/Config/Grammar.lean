/-
Module: Cromwell.Config.Grammar
Layer: Spec and proofs
Purpose: The grammar of a boot configuration, as a fold over its lines, and that `ParseConfig` follows it. In a text
  whose keyword lines all have a value of their own nothing that happens to the rest of the text on the way reaches
  the entries.
Imports: Cromwell.Config.Bounds
Trusted boundary: human-reviewed statement (ConfigText, refEntries, RefEntry.toEntry)
Main exports: RefEntry, lineKeyword, lineText, refLine, refEntries, RefEntry.toEntry, ConfigText, config_grammar
-/
import Cromwell.Config.Bounds

namespace Cromwell.Config

open BootLibrary

/-! ### The grammar -/

/-- The keyword that a line starts with. -/
def lineKeyword (line : List UInt8) : Option Keyword :=
  if titleWord <+: line then some .title
  else if kernelWord <+: line then some .kernel
  else if initrdWord <+: line then some .initrd
  else if appendWord <+: line then some .append
  else if defaultWord <+: line then some .default
  else none

/-- The value of a line: the rest of it behind the first separator, without surrounding white space. -/
def lineText (line : List UInt8) : List UInt8 := trim ((afterSeparator line).getD [])

/-- The strings of an entry. -/
structure RefEntry where
  title : List UInt8
  kernel : List UInt8
  initrd : List UInt8
  append : List UInt8
deriving DecidableEq, Repr

def RefEntry.empty : RefEntry := ⟨[], [], [], []⟩

/-- A file name with slashes only, behind the path or with a leading slash. -/
def refPath (szPath : Option (List UInt8)) (value : List UInt8) : List UInt8 :=
  let name := value.map fun b => if b = 0x5c then 0x2f else b
  match szPath with
  | some path => cString path ++ [0x2f] ++ name
  | none => if [0x2f] <+: name then name else 0x2f :: name

/-- What a line does to the entries in front of the current one and to the current one. -/
def refLine (szPath : Option (List UInt8)) (es : List RefEntry × RefEntry) (line : List UInt8) :
    List RefEntry × RefEntry :=
  match lineKeyword line with
  | some .title =>
      if es.2.title = [] then (es.1, { es.2 with title := lineText line })
      else (es.1 ++ [es.2], { RefEntry.empty with title := lineText line })
  | some .kernel => (es.1, { es.2 with kernel := refPath szPath (lineText line) })
  | some .initrd =>
      if noWord <+: lineText line then es
      else (es.1, { es.2 with initrd := refPath szPath (lineText line) })
  | some .append => (es.1, { es.2 with append := lineText line })
  | some .default => es
  | none => es

/-- The entries of lines, in the order of the file. -/
def refEntries (szPath : Option (List UInt8)) (lines : List (List UInt8)) : List RefEntry :=
  let es := lines.foldl (refLine szPath) ([], RefEntry.empty)
  es.1 ++ [es.2]

/-- An array with a string and zeros behind it. -/
def CharArray.padded (size : Nat) (string : List UInt8) : CharArray :=
  ⟨string ++ List.replicate (size - string.length) 0, false⟩

/-- The record of an entry: everything but its strings is zero. -/
def RefEntry.toEntry (e : RefEntry) : CONFIGENTRY :=
  { CONFIGENTRY.zero with
    title := .padded 15 e.title
    szKernel := .padded maxLine e.kernel
    szInitrd := .padded maxLine e.initrd
    szAppend := .padded maxLine e.append }

/-- An entry without the mark of the default. -/
def CONFIGENTRY.unmarked (e : CONFIGENTRY) : CONFIGENTRY := { e with isDefault := 0 }

/-- The number of the entry that a line belongs to: a title line after the first starts the next one. -/
def entryIndex (lines : List (List UInt8)) (i : Nat) : Nat :=
  (lines.take (i + 1)).countP (fun line => lineKeyword line = some .title) - 1

/-- The value of a keyword line fits in its field with a NUL. -/
def LineFits (szPath : Option (List UInt8)) (line : List UInt8) : Prop :=
  match lineKeyword line with
  | some .title => (lineText line).length < 15
  | some .kernel => (refPath szPath (lineText line)).length < maxLine
  | some .initrd => noWord <+: lineText line ∨ (refPath szPath (lineText line)).length < maxLine
  | some .append => (lineText line).length < maxLine
  | _ => True

/-- The texts of the grammar. -/
structure ConfigText (szPath : Option (List UInt8)) (text : List UInt8) : Prop where
  /-- there is no NUL in the text -/
  noNul : 0 ∉ text
  /-- a keyword line has a separator and a value -/
  value : ∀ line ∈ text.splitOn 0x0a, lineKeyword line ≠ none → afterSeparator line ≠ none ∧ lineText line ≠ []
  /-- the value fits -/
  fits : ∀ line ∈ text.splitOn 0x0a, LineFits szPath line
  /-- no two lines of an entry have the same keyword, but for titles and defaults -/
  once : ∀ i j line line' k, i < j → (text.splitOn 0x0a)[i]? = some line → (text.splitOn 0x0a)[j]? = some line' →
    lineKeyword line = some k → lineKeyword line' = some k → k ∈ [Keyword.kernel, .initrd, .append] →
    entryIndex (text.splitOn 0x0a) i ≠ entryIndex (text.splitOn 0x0a) j

/-! ### The words of the grammar and of the code -/

theorem lineKeyword_eq (line : List UInt8) : lineKeyword line = keywordOf (paramOf line) := by
  have heq : ∀ word ∈ words, (word <+: line ↔ strncmp (paramOf line) word word.length = 0) := by
    intro word hword
    have hzero : 0 ∉ word := by
      revert word
      decide
    rw [strncmp_word hzero, word_paramOf hword]
  exact keyword_congr heq

theorem refPath_eq (szPath : Option (List UInt8)) (value : List UInt8) :
    refPath szPath value = filePath szPath (value.map slash) := by
  cases szPath with
  | some path =>
      rw [refPath, filePath]
      exact List.append_cons .. |>.symm
  | none =>
      have hhead : [0x2f] <+: value.map slash ↔ (value.map slash).headD 0 = 0x2f := by
        cases value.map slash with
        | nil => decide
        | cons b name =>
            rw [List.cons_prefix_cons, List.headD_cons]
            exact ⟨fun h => h.1.symm, fun h => ⟨h.symm, List.nil_prefix⟩⟩
      exact if_congr hhead rfl rfl

theorem noWord_eq (value : List UInt8) : noWord <+: value ↔ strncmp (value.map slash) noWord 2 = 0 := by
  have hzero : (0 : UInt8) ∉ noWord := by decide
  have hslash : ∀ b ∈ noWord, b ≠ 0x5c ∧ b ≠ 0x2f := by decide +kernel
  rw [← prefix_map_slash hslash]
  exact (strncmp_word hzero _).symm

/-- A line as a token. -/
def lineToken (line : List UInt8) : Token := ⟨lineKeyword line, lineText line⟩

/-- When every keyword line has a value of its own, what stands behind a line has no part in the tokens. -/
theorem keyed_lineTokens (after : List UInt8) {lines : List (List UInt8)}
    (h : ∀ line ∈ lines, lineKeyword line ≠ none → afterSeparator line ≠ none) :
    keyed (lineTokens after lines) = keyed (lines.map lineToken) := by
  induction lines with
  | nil =>
      rfl
  | cons line rest ih =>
      have hrest := ih fun line hline => h line (List.mem_cons_of_mem _ hline)
      rw [lineTokens, List.map_cons, keyed_cons, keyed_cons, hrest, lineToken, ← lineKeyword_eq]
      dsimp only
      cases hkey : lineKeyword line with
      | none =>
          rfl
      | some k =>
          have hsome := h line List.mem_cons_self (by rw [hkey]; exact Option.some_ne_none k)
          obtain ⟨v, hv⟩ := Option.ne_none_iff_exists'.mp hsome
          rw [lineValue, lineText, hv]
          rfl

/-! ### Padded arrays -/

theorem strncpy_zero {size : Nat} {value : List UInt8} (h : value.length < size) :
    (CharArray.padded size []).strncpy value = .padded size value := by
  have hlength : (CharArray.padded size []).bytes.length = size := List.length_replicate
  rw [CharArray.strncpy, CharArray.put, hlength, List.take_of_length_le (Nat.le_of_lt h)]
  show CharArray.mk (value ++ (List.replicate size 0).drop value.length) (false || decide (size < value.length)) = _
  rw [List.drop_replicate, decide_eq_false (by omega)]
  rfl

theorem sprintf_zero {size : Nat} {value : List UInt8} (h : value.length < size) :
    (CharArray.padded size []).sprintf value = .padded size value := by
  have hlength : (CharArray.padded size []).bytes.length = size := List.length_replicate
  have hnul : (value ++ [0]).length = value.length + 1 := List.length_append
  rw [CharArray.sprintf, CharArray.put, hlength, List.take_of_length_le (by omega)]
  show CharArray.mk (value ++ [0] ++ (List.replicate size 0).drop (value ++ [0]).length)
    (false || decide (size < (value ++ [0]).length)) = _
  rw [List.drop_replicate, decide_eq_false (by omega), hnul, CharArray.padded,
    show size - value.length = size - (value.length + 1) + 1 by omega, List.replicate_succ, List.append_assoc]
  rfl

theorem padded_string {size : Nat} {value : List UInt8} (hzero : 0 ∉ value) (h : value.length < size) :
    (CharArray.padded size value).string = value := by
  rw [CharArray.string, CharArray.padded, show size - value.length = size - value.length - 1 + 1 by omega,
    List.replicate_succ, cString_append _ hzero]

/-- A title that ends in its array. -/
theorem padded_titleString {e : CONFIGENTRY} {title : List UInt8} (htitle : e.title = .padded 15 title) (hzero : 0 ∉ title)
    (h : title.length < 15) : e.titleString = title := by
  rw [CONFIGENTRY.titleString, htitle, CharArray.padded, show 15 - title.length = 15 - title.length - 1 + 1 by omega,
    List.replicate_succ, List.append_assoc, List.cons_append, cString_append _ hzero]

/-- A title that fits in its array leaves the next one alone. -/
theorem storeTitle_short {e : CONFIGENTRY} (htitle : e.title = .padded 15 []) {value : List UInt8}
    (h : value.length < 15) : e.storeTitle value = { e with title := .padded 15 value } := by
  have hlength : (CharArray.padded 15 []).bytes.length = 15 := rfl
  rw [CONFIGENTRY.storeTitle, htitle, hlength, List.drop_eq_nil_of_le (Nat.le_of_lt h), CharArray.put_nil,
    strncpy_zero h]

/-! ### Line by line -/

/-- The field of a keyword. -/
def RefEntry.field (e : RefEntry) : Keyword → List UInt8
  | .title => e.title
  | .kernel => e.kernel
  | .initrd => e.initrd
  | .append => e.append
  | .default => []

theorem field_title {e : RefEntry} (title : List UInt8) {k : Keyword} (h : k ≠ .title) :
    ({ e with title := title } : RefEntry).field k = e.field k := by
  cases k with
  | title => exact absurd rfl h
  | kernel => rfl
  | initrd => rfl
  | append => rfl
  | default => rfl

theorem field_kernel (e : RefEntry) (kernel : List UInt8) (k : Keyword) :
    ({ e with kernel := kernel } : RefEntry).field k = e.field k ∨ k = .kernel := by
  cases k with
  | kernel => exact Or.inr rfl
  | title => exact Or.inl rfl
  | initrd => exact Or.inl rfl
  | append => exact Or.inl rfl
  | default => exact Or.inl rfl

theorem field_initrd (e : RefEntry) (initrd : List UInt8) (k : Keyword) :
    ({ e with initrd := initrd } : RefEntry).field k = e.field k ∨ k = .initrd := by
  cases k with
  | initrd => exact Or.inr rfl
  | title => exact Or.inl rfl
  | kernel => exact Or.inl rfl
  | append => exact Or.inl rfl
  | default => exact Or.inl rfl

theorem field_append (e : RefEntry) (append : List UInt8) (k : Keyword) :
    ({ e with append := append } : RefEntry).field k = e.field k ∨ k = .append := by
  cases k with
  | append => exact Or.inr rfl
  | title => exact Or.inl rfl
  | kernel => exact Or.inl rfl
  | initrd => exact Or.inl rfl
  | default => exact Or.inl rfl

theorem field_empty (k : Keyword) : RefEntry.empty.field k = [] := by
  cases k with
  | title => rfl
  | kernel => rfl
  | initrd => rfl
  | append => rfl
  | default => rfl

/-- The number of titles in lines. -/
def titleCount (lines : List (List UInt8)) : Nat := lines.countP fun line => lineKeyword line = some .title

/-- After the lines `done`: the current entry has a title if there was one, and each other string that it has comes
    from a line of the same entry. -/
structure RefInv (done : List (List UInt8)) (e : RefEntry) : Prop where
  title : (e.title = [] ↔ titleCount done = 0) ∧ 0 ∉ e.title ∧ e.title.length < 15
  source : ∀ k ∈ [Keyword.kernel, .initrd, .append], e.field k ≠ [] →
    ∃ i line, done[i]? = some line ∧ lineKeyword line = some k ∧ entryIndex done i = titleCount done - 1

theorem RefInv.empty : RefInv [] RefEntry.empty where
  title := ⟨by decide, List.not_mem_nil, by decide⟩
  source := fun k _ hne => absurd (field_empty k) hne

theorem entryIndex_append (done rest : List (List UInt8)) {i : Nat} (h : i < done.length) :
    entryIndex (done ++ rest) i = entryIndex done i := by
  rw [entryIndex, entryIndex, List.take_append_of_le_length (by omega)]

theorem entryIndex_last (done : List (List UInt8)) (line : List UInt8) (rest : List (List UInt8)) :
    entryIndex (done ++ line :: rest) done.length = titleCount (done ++ [line]) - 1 := by
  rw [entryIndex, titleCount, List.append_cons, List.take_left' (by simp)]

theorem titleCount_append (done : List (List UInt8)) (line : List UInt8) :
    titleCount (done ++ [line]) = titleCount done + if lineKeyword line = some .title then 1 else 0 := by
  rw [titleCount, titleCount, List.countP_append, List.countP_singleton]
  simp only [decide_eq_true_eq]

/-- Lines of an entry keep being lines of it. -/
theorem RefInv.later {done : List (List UInt8)} {line : List UInt8} {k : Keyword}
    (hcount : titleCount (done ++ [line]) - 1 = titleCount done - 1)
    (h : ∃ i line, done[i]? = some line ∧ lineKeyword line = some k ∧ entryIndex done i = titleCount done - 1) :
    ∃ i line', (done ++ [line])[i]? = some line' ∧ lineKeyword line' = some k ∧
      entryIndex (done ++ [line]) i = titleCount (done ++ [line]) - 1 := by
  obtain ⟨i, line', hget, hkey, hindex⟩ := h
  have hi : i < done.length := (List.getElem?_eq_some_iff.mp hget).1
  refine ⟨i, line', ?_, hkey, ?_⟩
  · rw [List.getElem?_append_left hi, hget]
  · rw [entryIndex_append done [line] hi, hindex, hcount]

theorem lineText_zero {line : List UInt8} (h : 0 ∉ line) : 0 ∉ lineText line := by
  refine notMem_trim ?_
  cases hv : afterSeparator line with
  | none =>
      exact List.not_mem_nil
  | some v =>
      obtain ⟨c, hparts, -⟩ := afterSeparator_some hv
      intro hmem
      exact h (by rw [hparts]; exact List.mem_append_right _ (List.mem_cons_of_mem _ hmem))

section Step

variable {szPath : Option (List UInt8)} {done : List (List UInt8)} {line : List UInt8} {r : List RefEntry × RefEntry}

/-- A line that is no title keeps the invariant: it fills at most one field of the current entry. -/
theorem RefInv.other (hinv : RefInv done r.2) (htitle : lineKeyword line ≠ some .title) {e : RefEntry}
    (hsame : e.title = r.2.title)
    (hfields : ∀ k, e.field k = r.2.field k ∨ lineKeyword line = some k) : RefInv (done ++ [line]) e where
  title := by
    rw [hsame, titleCount_append, if_neg htitle]
    exact hinv.title
  source := by
    intro k hk hne
    have hcount : titleCount (done ++ [line]) = titleCount done := by
      rw [titleCount_append, if_neg htitle]
      rfl
    rcases hfields k with hold | hnew
    · rw [hold] at hne
      exact RefInv.later (by rw [hcount]) (hinv.source k hk hne)
    · refine ⟨done.length, line, ?_, hnew, entryIndex_last done line []⟩
      rw [List.getElem?_append_right (Nat.le_refl _), Nat.sub_self, List.getElem?_cons_zero]

/-- One line: the code does what the grammar says. -/
theorem refLine_step (hinv : RefInv done r.2) (hzero : 0 ∉ line) (hvalue : lineKeyword line ≠ none → lineText line ≠ [])
    (hfits : LineFits szPath line)
    (honce : ∀ k ∈ [Keyword.kernel, .initrd, .append], lineKeyword line = some k → r.2.field k = []) :
    RefInv (done ++ [line]) (refLine szPath r line).2 ∧
      Token.apply szPath (r.1.map RefEntry.toEntry, r.2.toEntry) (lineToken line) =
        ((refLine szPath r line).1.map RefEntry.toEntry, (refLine szPath r line).2.toEntry) := by
  have htext := lineText_zero hzero
  obtain ⟨closed, current⟩ := r
  rw [LineFits] at hfits
  rw [Token.apply, refLine, lineToken]
  cases hkey : lineKeyword line with
  | none =>
      refine ⟨hinv.other (by rw [hkey]; decide) rfl fun k => Or.inl rfl, rfl⟩
  | some k =>
      rw [hkey] at hfits
      cases k with
      | title =>
          have hne : lineText line ≠ [] := hvalue (by rw [hkey]; decide)
          have hcount : titleCount (done ++ [line]) = titleCount done + 1 := by
            rw [titleCount_append, if_pos hkey]
          obtain ⟨⟨hempty, htitle, hshort⟩, hsource⟩ := hinv
          have hstring : (RefEntry.toEntry current).titleString.length = 0 ↔ current.title = [] := by
            rw [padded_titleString rfl htitle hshort, List.length_eq_zero_iff]
          have hnew : (lineText line = [] ↔ titleCount (done ++ [line]) = 0) ∧ 0 ∉ lineText line ∧
              (lineText line).length < 15 := by
            rw [hcount]
            exact ⟨iff_of_false hne (by omega), htext, hfits⟩
          dsimp only
          by_cases hfirst : current.title = []
          · rw [if_pos hfirst, if_pos (hstring.mpr hfirst)]
            refine ⟨⟨hnew, fun k hk hfield => ?_⟩, ?_⟩
            · have hzeroCount := hempty.mp hfirst
              rw [field_title _ (fun h => absurd hk (by rw [h]; decide))] at hfield
              exact RefInv.later (by rw [hcount]; omega) (hsource k hk hfield)
            · have huntitled : current.toEntry.title = .padded 15 [] := by
                rw [RefEntry.toEntry, hfirst]
              rw [storeTitle_short huntitled hfits]
              rfl
          · rw [if_neg hfirst, if_neg (fun h => hfirst (hstring.mp h))]
            refine ⟨⟨hnew, fun k hk hfield => ?_⟩, ?_⟩
            · rw [field_title _ (fun h => absurd hk (by rw [h]; decide)), field_empty] at hfield
              exact absurd rfl hfield
            · rw [storeTitle_short rfl hfits, List.map_append]
              rfl
      | kernel =>
          have hfree : current.kernel = [] := honce .kernel (by decide) hkey
          have hput : current.toEntry.szKernel.sprintf (filePath szPath ((lineText line).map slash)) =
              .padded maxLine (refPath szPath (lineText line)) := by
            rw [RefEntry.toEntry, hfree, ← refPath_eq, sprintf_zero hfits]
          refine ⟨hinv.other (by rw [hkey]; decide) rfl fun k => ?_, ?_⟩
          · exact (field_kernel current _ k).imp_right fun hk => hkey.trans (congrArg some hk.symm)
          · dsimp only
            rw [hput]
            rfl
      | initrd =>
          have hfree : current.initrd = [] := honce .initrd (by decide) hkey
          dsimp only
          by_cases hno : noWord <+: lineText line
          · rw [if_pos hno, if_pos ((noWord_eq _).mp hno)]
            exact ⟨hinv.other (by rw [hkey]; decide) rfl fun k => Or.inl rfl, rfl⟩
          · have hput : current.toEntry.szInitrd.sprintf (filePath szPath ((lineText line).map slash)) =
                .padded maxLine (refPath szPath (lineText line)) := by
              rw [RefEntry.toEntry, hfree, ← refPath_eq, sprintf_zero (hfits.resolve_left hno)]
            rw [if_neg hno, if_neg (fun h => hno ((noWord_eq _).mpr h))]
            refine ⟨hinv.other (by rw [hkey]; decide) rfl fun k => ?_, ?_⟩
            · exact (field_initrd current _ k).imp_right fun hk => hkey.trans (congrArg some hk.symm)
            · rw [hput]
              rfl
      | append =>
          have hfree : current.append = [] := honce .append (by decide) hkey
          have hput : current.toEntry.szAppend.strncpy (lineText line) = .padded maxLine (lineText line) := by
            rw [RefEntry.toEntry, hfree, strncpy_zero hfits]
          refine ⟨hinv.other (by rw [hkey]; decide) rfl fun k => ?_, ?_⟩
          · exact (field_append current _ k).imp_right fun hk => hkey.trans (congrArg some hk.symm)
          · dsimp only
            rw [hput]
            rfl
      | default =>
          exact ⟨hinv.other (by rw [hkey]; decide) rfl fun k => Or.inl rfl, rfl⟩

/-- All lines of a text. -/
theorem refLines_run {text : List UInt8} (h : ConfigText szPath text) {rest : List (List UInt8)}
    (hsplit : text.splitOn 0x0a = done ++ rest) (hinv : RefInv done r.2) :
    (rest.map lineToken).foldl (Token.apply szPath) (r.1.map RefEntry.toEntry, r.2.toEntry) =
      ((rest.foldl (refLine szPath) r).1.map RefEntry.toEntry, (rest.foldl (refLine szPath) r).2.toEntry) := by
  induction rest generalizing done r with
  | nil =>
      rfl
  | cons line rest ih =>
      have hmem : line ∈ text.splitOn 0x0a := by
        rw [hsplit]
        exact List.mem_append_right _ List.mem_cons_self
      have hzero : 0 ∉ line := fun hb => h.noNul (mem_of_mem_splitOn hmem hb)
      have honce : ∀ k ∈ [Keyword.kernel, .initrd, .append], lineKeyword line = some k → r.2.field k = [] := by
        intro k hk hkey
        by_contra hne
        obtain ⟨i, line', hget, hkey', hindex⟩ := hinv.source k hk hne
        have hi : i < done.length := (List.getElem?_eq_some_iff.mp hget).1
        have hnotTitle : lineKeyword line ≠ some .title := by
          rw [hkey]
          rintro ⟨⟩
          exact absurd hk (by decide)
        refine h.once i done.length line' line k hi ?_ ?_ hkey' hkey hk ?_
        · rw [hsplit, List.getElem?_append_left hi, hget]
        · rw [hsplit, List.getElem?_append_right (Nat.le_refl _), Nat.sub_self, List.getElem?_cons_zero]
        · rw [hsplit, entryIndex_last, entryIndex_append _ _ hi, hindex, titleCount_append, if_neg hnotTitle]
          rfl
      obtain ⟨hnext, hstep⟩ := refLine_step hinv hzero (fun hkey => (h.value line hmem hkey).2) (h.fits line hmem) honce
      rw [List.map_cons, List.foldl_cons, List.foldl_cons, hstep]
      exact ih (by rw [hsplit, List.append_cons]) hnext

end Step

/-! ### The whole text -/

theorem markDefault_unmarked (d : List UInt8) (entries : List CONFIGENTRY) :
    (markDefault d entries).map CONFIGENTRY.unmarked = entries.map CONFIGENTRY.unmarked := by
  induction entries with
  | nil =>
      rfl
  | cons e entries ih =>
      rw [markDefault]
      split
      · rfl
      · rw [List.map_cons, List.map_cons, ih]

/-- The tokens of a text of the grammar. -/
theorem config_tokens {szPath : Option (List UInt8)} {text : List UInt8} (h : ConfigText szPath text)
    {after : List UInt8} (hread : StaysInside text ∨ 0 ∈ after) :
    ∃ tokens, tokensOf (text.length + 1 + after.length) text after = .ok tokens ∧
      keyed tokens = keyed ((text.splitOn 0x0a).map lineToken) := by
  have hbody : cString text = text :=
    List.takeWhile_eq_self_iff.mpr fun b hb => decide_eq_true fun hb' => h.noNul (hb' ▸ hb)
  have hlines : configLines text = text.splitOn 0x0a := by rw [configLines, hbody]
  have hvalue : ∀ line ∈ configLines text, lineKeyword line ≠ none → afterSeparator line ≠ none := fun line hline hkey =>
    (h.value line (hlines ▸ hline) hkey).1
  have hkeep : ∀ line ∈ configLines text, turnsSlashes line = false := by
    intro line hline
    rw [turnsSlashes, ← lineKeyword_eq]
    cases hsep : afterSeparator line with
    | some v => rfl
    | none =>
        have hnone : lineKeyword line = none := by
          by_contra hkey
          exact hvalue line hline hkey hsep
        rw [hnone]
        rfl
  have htokens : ∀ {founds : List Found} (behind : List UInt8),
      keyedFounds founds = keyedFounds (lineFounds behind false (configLines text)) →
      keyed (founds.map Found.token) = keyed ((configLines text).map lineToken) := by
    intro founds behind hkeyed
    rw [← map_token_keyedFounds, hkeyed, map_token_keyedFounds, lineFounds_kept behind hkeep,
      keyed_lineTokens behind hvalue]
  obtain ⟨founds, hok, hsame⟩ := foundsOf_read hread
  rw [← map_token_foundsOf, ← hlines, hok]
  exact ⟨_, rfl, htokens _ hsame⟩

/-- For every text of the grammar, every path and every memory behind the text in which the search for a value can end:
    the entries of `ParseConfig` are those of the grammar. -/
theorem config_grammar (szPath : Option (List UInt8)) (text : List UInt8) (h : ConfigText szPath text) (last : UInt8)
    (after : List UInt8) (hread : StaysInside text ∨ 0 ∈ after) :
    ∃ entries mem,
      parseConfig (text.length + 1 + after.length) szPath (text ++ last :: after) text.length = .ok (entries, mem) ∧
      entries.map CONFIGENTRY.unmarked = (refEntries szPath (text.splitOn 0x0a)).map RefEntry.toEntry := by
  obtain ⟨tokens, hok, hkeyed⟩ := config_tokens h hread
  have hparse := parseConfig_tokens (text.length + 1 + after.length) szPath text last after (by omega)
  rw [hok] at hparse
  obtain ⟨entries, mem, hrun, hentries⟩ := hparse
  refine ⟨entries, mem, hrun, ?_⟩
  have hfold : entriesOf szPath tokens = (refEntries szPath (text.splitOn 0x0a)).map RefEntry.toEntry := by
    have hlines := refLines_run (r := ([], RefEntry.empty)) h (List.nil_append (text.splitOn 0x0a)).symm RefInv.empty
    rw [entriesOf, foldl_keyed, hkeyed, ← foldl_keyed, refEntries]
    rw [show (([], CONFIGENTRY.zero) : List CONFIGENTRY × CONFIGENTRY) =
      (([] : List RefEntry).map RefEntry.toEntry, RefEntry.empty.toEntry) from rfl, hlines, List.map_append]
    rfl
  have hmarks : entries.map CONFIGENTRY.unmarked = (entriesOf szPath tokens).map CONFIGENTRY.unmarked := by
    rcases hentries with rfl | ⟨d, rfl⟩
    · rfl
    · exact markDefault_unmarked d _
  rw [hmarks, hfold, List.map_map]
  rfl

/-- A title, a kernel and a newline at the end. -/
def twoLines : List UInt8 :=
  [0x74, 0x69, 0x74, 0x6c, 0x65, 0x20, 0x61, 0x0a, 0x6b, 0x65, 0x72, 0x6e, 0x65, 0x6c, 0x20, 0x62, 0x0a]

theorem twoLines_lines : twoLines.splitOn 0x0a =
    [[0x74, 0x69, 0x74, 0x6c, 0x65, 0x20, 0x61], [0x6b, 0x65, 0x72, 0x6e, 0x65, 0x6c, 0x20, 0x62], []] := by
  decide +kernel

theorem twoLines_text : ConfigText none twoLines where
  noNul := by decide +kernel
  value := by
    rw [twoLines_lines]
    decide +kernel
  fits := by
    rw [twoLines_lines]
    intro line hline
    rcases List.mem_cons.mp hline with rfl | hline
    · show (lineText _).length < 15
      decide +kernel
    rcases List.mem_cons.mp hline with rfl | hline
    · show (refPath none (lineText _)).length < maxLine
      decide +kernel
    rw [List.mem_singleton.mp hline]
    trivial
  once := by
    rw [twoLines_lines]
    rintro (_ | _ | _ | i) j line line' k hij hi hj hkey hkey' hk
    · cases hi
      rw [show lineKeyword [0x74, 0x69, 0x74, 0x6c, 0x65, 0x20, 0x61] = some .title by decide +kernel] at hkey
      cases hkey
      exact absurd hk (by decide)
    · obtain ⟨j, rfl⟩ : ∃ n, j = n + 2 := ⟨j - 2, by omega⟩
      cases j with
      | zero =>
          cases hj
          rw [show lineKeyword [] = none by decide +kernel] at hkey'
          cases hkey'
      | succ j => cases hj
    · cases hi
      rw [show lineKeyword [] = none by decide +kernel] at hkey
      cases hkey
    · cases hi

theorem config_grammar_two :
    ConfigText none twoLines ∧ ∃ entries mem, parseConfig 19 none (twoLines ++ 0xff :: [0]) 17 = .ok (entries, mem) ∧
      entries.map CONFIGENTRY.unmarked = [RefEntry.toEntry ⟨[0x61], [0x2f, 0x62], [], []⟩] := by
  refine ⟨twoLines_text, ?_⟩
  obtain ⟨entries, mem, hrun, hentries⟩ := config_grammar none twoLines twoLines_text 0xff [0]
    (Or.inr (List.mem_singleton.mpr rfl))
  refine ⟨entries, mem, hrun, ?_⟩
  rw [hentries, show refEntries none (twoLines.splitOn 0x0a) = [⟨[0x61], [0x2f, 0x62], [], []⟩] by decide +kernel]
  rfl

end Cromwell.Config
