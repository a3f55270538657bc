/-
Module: Cromwell.Config.Lines
Layer: Proofs
Purpose: The pass over the text line by line. The tokens are those of the lines as they stand in the text, although a
  line without a separator cuts the white space at the end of the text and so may change what the last line is; and
  whether the pass stays inside the text depends on its last line.
Imports: Cromwell.Lib.Split, Cromwell.Config.Scan
Trusted boundary: none
Main exports: joinLines, lineTokens, TrimsTail, turn, lineFounds, found_lines, found_trimmed
-/
import Cromwell.Lib.Split
import Cromwell.Config.Scan

namespace Cromwell.Config

open BootLibrary

/-- The text of lines. -/
def joinLines : List (List UInt8) → List UInt8
  | [] => []
  | [line] => line
  | line :: rest => line ++ 0x0a :: joinLines rest

theorem joinLines_cons (line : List UInt8) {rest : List (List UInt8)} (h : rest ≠ []) :
    joinLines (line :: rest) = line ++ 0x0a :: joinLines rest := by
  cases rest with
  | nil => exact absurd rfl h
  | cons line' rest => rfl

/-- The value of a line: what stands behind its first separator, or else the lines behind it; a last line without a
    separator takes `after`. -/
def lineValue (after line : List UInt8) (rest : List (List UInt8)) : List UInt8 :=
  match afterSeparator line with
  | some v => trim v
  | none => if rest = [] then trim (cString after) else trim (joinLines rest)

/-- The tokens of lines. -/
def lineTokens (after : List UInt8) : List (List UInt8) → List Token
  | [] => []
  | line :: rest => ⟨keywordOf (paramOf line), lineValue after line rest⟩ :: lineTokens after rest

/-- Some line without a separator is followed by a text with white space at its end. -/
def TrimsTail : List (List UInt8) → Prop
  | [] => False
  | line :: rest => afterSeparator line = none ∧ trimEnd (joinLines rest) ≠ joinLines rest ∨ TrimsTail rest

def TrimsTail.decide : (ls : List (List UInt8)) → Decidable (TrimsTail ls)
  | [] => .isFalse id
  | line :: rest =>
      have := TrimsTail.decide rest
      inferInstanceAs (Decidable (afterSeparator line = none ∧ trimEnd (joinLines rest) ≠ joinLines rest ∨ TrimsTail rest))

instance : DecidablePred TrimsTail := TrimsTail.decide

/-- The lines of the text without the white space at its end. -/
def trimLines : List (List UInt8) → List (List UInt8)
  | [] => []
  | line :: rest => if trimEnd (joinLines rest) = [] then [trimEnd line] else line :: trimLines rest

theorem trimLines_ne_nil {ls : List (List UInt8)} (h : ls ≠ []) : trimLines ls ≠ [] := by
  cases ls with
  | nil => exact absurd rfl h
  | cons line rest =>
      rw [trimLines]
      split
      · exact List.cons_ne_nil _ _
      · exact List.cons_ne_nil _ _

theorem trimEnd_newline (text : List UInt8) :
    trimEnd (0x0a :: text) = if trimEnd text = [] then [] else 0x0a :: trimEnd text := by
  rw [show (0x0a :: text : List UInt8) = [0x0a] ++ text from rfl, trimEnd_append]
  rfl

theorem joinLines_trimLines (ls : List (List UInt8)) : joinLines (trimLines ls) = trimEnd (joinLines ls) := by
  induction ls with
  | nil =>
      rfl
  | cons line rest ih =>
      cases rest with
      | nil =>
          rfl
      | cons line' rest =>
          rw [trimLines, joinLines_cons line (List.cons_ne_nil _ _), trimEnd_append, trimEnd_newline]
          by_cases hempty : trimEnd (joinLines (line' :: rest)) = []
          · rw [if_pos hempty, if_pos hempty, if_pos rfl]
            rfl
          · rw [if_neg hempty, if_neg hempty, if_neg (List.cons_ne_nil _ _),
              joinLines_cons line (trimLines_ne_nil (List.cons_ne_nil _ _)), ih]

theorem joinLines_splitOn (text : List UInt8) : joinLines (text.splitOn 0x0a) = text := by
  induction text using split_induction (0x0a : UInt8) with
  | last line hline =>
      rw [splitOn_of_notMem hline]
      rfl
  | cons line rest hline ih =>
      rw [splitOn_append rest hline, joinLines_cons line (List.splitOn_ne_nil _ _), ih]

/-! ### Keywords -/

/-- The words that `ParseConfig` looks for. -/
def words : List (List UInt8) := [titleWord, kernelWord, initrdWord, appendWord, defaultWord]

theorem strncmp_word {word : List UInt8} (h : 0 ∉ word) (text : List UInt8) :
    strncmp text word word.length = 0 ↔ word <+: text := by
  induction word generalizing text with
  | nil =>
      exact ⟨fun _ => List.nil_prefix, fun _ => by rw [List.length_nil, strncmp]⟩
  | cons b word ih =>
      rw [List.mem_cons, not_or] at h
      cases text with
      | nil =>
          have hne : ¬ (0 : UInt8) = b := h.1
          rw [List.prefix_nil, List.length_cons, strncmp, List.headD_nil, List.headD_cons, if_neg hne]
          refine ⟨fun heq => ?_, fun heq => absurd heq (List.cons_ne_nil _ _)⟩
          split at heq <;> exact absurd heq (by decide)
      | cons c text =>
          rw [List.length_cons, strncmp_cons, List.cons_prefix_cons]
          by_cases hbc : c = b
          · have hne : ¬ c = 0 := fun hc => h.1 (by rw [← hc, hbc])
            rw [if_pos hbc, if_neg hne, ih h.2]
            exact ⟨fun hrest => ⟨hbc.symm, hrest⟩, fun hboth => hboth.2⟩
          · rw [if_neg hbc]
            refine ⟨fun heq => ?_, fun hboth => absurd hboth.1.symm hbc⟩
            split at heq <;> exact absurd heq (by decide)

/-- The choice of a keyword depends on which words are found. -/
theorem keyword_congr {p q : List UInt8 → Prop} [DecidablePred p] [DecidablePred q]
    (h : ∀ word ∈ words, p word ↔ q word) :
    (if p titleWord then some Keyword.title else if p kernelWord then some .kernel
      else if p initrdWord then some .initrd else if p appendWord then some .append
      else if p defaultWord then some .default else none) =
    if q titleWord then some Keyword.title else if q kernelWord then some .kernel
      else if q initrdWord then some .initrd else if q appendWord then some .append
      else if q defaultWord then some .default else none :=
  if_congr (h titleWord (by decide)) rfl <| if_congr (h kernelWord (by decide)) rfl <|
    if_congr (h initrdWord (by decide)) rfl <| if_congr (h appendWord (by decide)) rfl <|
    if_congr (h defaultWord (by decide)) rfl rfl

/-- The keyword of a word depends on what the word starts with. -/
theorem keywordOf_congr {x y : List UInt8} (h : ∀ word ∈ words, word <+: x ↔ word <+: y) : keywordOf x = keywordOf y := by
  have heq : ∀ word ∈ words, (strncmp x word word.length = 0 ↔ strncmp y word word.length = 0) := by
    intro word hword
    have hzero : 0 ∉ word := by
      revert word
      decide
    rw [strncmp_word hzero, strncmp_word hzero]
    exact h word hword
  exact keyword_congr heq

/-- No keyword holds white space or a slash. -/
theorem word_bytes {word : List UInt8} (h : word ∈ words) :
    word ≠ [] ∧ ∀ b ∈ word, isspace b = false ∧ b ≠ 0x5c ∧ b ≠ 0x2f := by
  revert word
  decide +kernel

/-- A keyword at the start of a line is at the start of its first word. -/
theorem word_paramOf {word : List UInt8} (h : word ∈ words) (line : List UInt8) :
    word <+: paramOf line ↔ word <+: line := by
  refine ⟨fun hpre => hpre.trans (List.takeWhile_prefix _), fun hpre => ?_⟩
  obtain ⟨rest, rfl⟩ := hpre
  have hall : ∀ b ∈ word, (!isSeparator b) = true := by
    intro b hb
    have hspace := ((word_bytes h).2 b hb).1
    revert hspace
    simp only [isspace, isSeparator]
    cases b == 0x20 <;> cases b == 0x09 <;> simp
  rw [paramOf, List.takeWhile_append_of_pos hall]
  exact List.prefix_append _ _

/-- White space behind a line is not part of its keyword. -/
theorem word_append_space {word : List UInt8} (h : word ∈ words) {line ws : List UInt8}
    (hws : ∀ b ∈ ws, isspace b = true) : word <+: line ++ ws ↔ word <+: line := by
  refine ⟨fun hpre => ?_, fun hpre => hpre.trans (List.prefix_append _ _)⟩
  rcases List.prefix_or_prefix_of_prefix hpre (List.prefix_append line ws) with hline | ⟨rest, rfl⟩
  · exact hline
  · cases rest with
    | nil =>
        rw [List.append_nil]
    | cons b rest =>
        have hb : isspace b = true := hws b ((List.prefix_append_right_inj line).mp hpre |>.subset List.mem_cons_self)
        have hother := ((word_bytes h).2 b (List.mem_append_right _ List.mem_cons_self)).1
        rw [hb] at hother
        cases hother

/-- The keyword of a line without the white space at its end. -/
theorem keywordOf_trimEnd (line : List UInt8) : keywordOf (paramOf (trimEnd line)) = keywordOf (paramOf line) := by
  refine keywordOf_congr fun word hword => ?_
  rw [word_paramOf hword, word_paramOf hword]
  nth_rewrite 2 [← trimEnd_append_trail line]
  exact (word_append_space hword fun b hb => isspace_of_mem_trail line hb).symm

/-- A line of white space has no keyword. -/
theorem keywordOf_space {line : List UInt8} (h : trimEnd line = []) : keywordOf (paramOf line) = none := by
  rw [← keywordOf_trimEnd, h]
  decide

/-! ### Backslashes

A line without a separator may replace backslashes in the lines behind it. This changes no length and no keyword. -/

theorem slash_byte (b : UInt8) : isspace (slash b) = isspace b ∧ isSeparator (slash b) = isSeparator b ∧
    (slash b = 0x0a ↔ b = 0x0a) ∧ (slash b = 0 ↔ b = 0) := by
  by_cases hb : b = 0x5c
  · rw [hb]
    decide
  · rw [slash, if_neg hb]
    exact ⟨rfl, rfl, Iff.rfl, Iff.rfl⟩

theorem isspace_slash : isspace ∘ slash = isspace := funext fun b => (slash_byte b).1

theorem trimEnd_map_slash (text : List UInt8) : trimEnd (text.map slash) = (trimEnd text).map slash := by
  rw [trimEnd, trimEnd, List.rdropWhile, List.rdropWhile, ← List.map_reverse, List.dropWhile_map, ← List.map_reverse,
    isspace_slash]

theorem trim_map_slash (text : List UInt8) : trim (text.map slash) = (trim text).map slash := by
  rw [trim, trim, List.dropWhile_map, isspace_slash, trimEnd_map_slash]

theorem separator_slash : (fun b => !isSeparator b) ∘ slash = fun b => !isSeparator b :=
  funext fun b => congrArg (!·) (slash_byte b).2.1

theorem paramOf_map_slash (line : List UInt8) : paramOf (line.map slash) = (paramOf line).map slash := by
  rw [paramOf, paramOf, List.takeWhile_map, separator_slash]

theorem afterSeparator_map_slash (line : List UInt8) :
    afterSeparator (line.map slash) = (afterSeparator line).map (List.map slash) := by
  rw [afterSeparator, afterSeparator, List.dropWhile_map, separator_slash]
  cases line.dropWhile fun b => !isSeparator b with
  | nil => rfl
  | cons c rest => rfl

theorem notMem_map_slash {text : List UInt8} (h : 0x0a ∉ text) : 0x0a ∉ text.map slash := by
  intro hmem
  obtain ⟨b, hb, hslash⟩ := List.mem_map.mp hmem
  exact h ((slash_byte b).2.2.1.mp hslash ▸ hb)

theorem zero_mem_map_slash (text : List UInt8) : 0 ∈ text.map slash ↔ 0 ∈ text := by
  refine ⟨fun hmem => ?_, fun hmem => List.mem_map.mpr ⟨0, hmem, rfl⟩⟩
  obtain ⟨b, hb, hslash⟩ := List.mem_map.mp hmem
  exact (slash_byte b).2.2.2.mp hslash ▸ hb

/-- A word without slashes starts a text whatever the direction of its slashes. -/
theorem prefix_map_slash {word : List UInt8} (h : ∀ b ∈ word, b ≠ 0x5c ∧ b ≠ 0x2f) (text : List UInt8) :
    word <+: text.map slash ↔ word <+: text := by
  induction word generalizing text with
  | nil =>
      exact iff_of_true List.nil_prefix List.nil_prefix
  | cons c word ih =>
      cases text with
      | nil =>
          rfl
      | cons b text =>
          have hc := h c List.mem_cons_self
          have hhead : c = slash b ↔ c = b := by
            rw [slash]
            split
            case isTrue hb => exact iff_of_false hc.2 (hb ▸ hc.1)
            case isFalse _ => exact Iff.rfl
          have hrest := ih (fun b hb => h b (List.mem_cons_of_mem _ hb)) text
          rw [List.map_cons, List.cons_prefix_cons, List.cons_prefix_cons]
          exact and_congr hhead hrest

theorem keywordOf_map_slash (param : List UInt8) : keywordOf (param.map slash) = keywordOf param :=
  keywordOf_congr fun _ hword => prefix_map_slash (fun b hb => ((word_bytes hword).2 b hb).2) param

theorem slash_slash (value : List UInt8) : (value.map slash).map slash = value.map slash := by
  rw [List.map_map]
  refine List.map_congr_left fun b _ => ?_
  show slash (slash b) = slash b
  by_cases hb : b = 0x5c
  · rw [hb]
    decide
  · rw [slash, slash, if_neg hb, if_neg hb]

/-- A text, with its backslashes turned or not. -/
def turn (turned : Bool) (text : List UInt8) : List UInt8 := if turned then text.map slash else text

section Turn

variable (turned : Bool) {text : List UInt8}

theorem turn_cases : (∀ text, turn turned text = text) ∨ ∀ text, turn turned text = text.map slash := by
  cases turned with
  | false => exact Or.inl fun _ => rfl
  | true => exact Or.inr fun _ => rfl

theorem turn_nil : turn turned [] = [] := by
  rcases turn_cases turned with h | h
  · exact h []
  · exact h []

theorem turn_eq_nil : turn turned text = [] ↔ text = [] := by
  rcases turn_cases turned with h | h
  · rw [h]
  · rw [h, List.map_eq_nil_iff]

theorem turn_length : (turn turned text).length = text.length := by
  rcases turn_cases turned with h | h
  · rw [h]
  · rw [h, List.length_map]

theorem turn_line (line rest : List UInt8) :
    turn turned (line ++ 0x0a :: rest) = turn turned line ++ 0x0a :: turn turned rest := by
  rcases turn_cases turned with h | h
  · rw [h, h, h]
  · rw [h, h, h, List.map_append, List.map_cons]
    rfl

theorem turn_space (front : List UInt8) {ws : List UInt8} (h : ∀ b ∈ ws, isspace b = true) :
    turn turned (front ++ ws) = turn turned front ++ ws := by
  rcases turn_cases turned with hturn | hturn
  · rw [hturn, hturn]
  · rw [hturn, hturn, List.map_append, map_slash_of_space h]

theorem turn_slash : (turn turned text).map slash = text.map slash := by
  rcases turn_cases turned with h | h
  · rw [h]
  · rw [h, slash_slash]

theorem trimEnd_turn : trimEnd (turn turned text) = turn turned (trimEnd text) := by
  rcases turn_cases turned with h | h
  · rw [h, h]
  · rw [h, h, trimEnd_map_slash]

theorem trim_turn : trim (turn turned text) = turn turned (trim text) := by
  rcases turn_cases turned with h | h
  · rw [h, h]
  · rw [h, h, trim_map_slash]

theorem afterSeparator_turn : afterSeparator (turn turned text) = (afterSeparator text).map (turn turned) := by
  cases turned with
  | false => exact Option.map_id'.symm
  | true => exact afterSeparator_map_slash text

theorem keywordOf_turn : keywordOf (paramOf (turn turned text)) = keywordOf (paramOf text) := by
  rcases turn_cases turned with h | h
  · rw [h]
  · rw [h, paramOf_map_slash, keywordOf_map_slash]

theorem notMem_turn (h : 0x0a ∉ text) : 0x0a ∉ turn turned text := by
  rcases turn_cases turned with hturn | hturn
  · rw [hturn]
    exact h
  · rw [hturn]
    exact notMem_map_slash h

end Turn

/-- The lines that turn the backslashes behind them: those of a kernel or an initrd without a separator. -/
def turnsSlashes (line : List UInt8) : Bool :=
  (afterSeparator line).isNone && decide (keywordOf (paramOf line) ∈ [some Keyword.kernel, some .initrd])

theorem turnsSlashes_some (turned : Bool) {line v : List UInt8} (h : afterSeparator line = some v) :
    (turned || turnsSlashes line) = turned := by
  rw [turnsSlashes, h]
  exact Bool.or_false turned

theorem replaced_turn (turned : Bool) {line : List UInt8} (h : afterSeparator line = none) (text : List UInt8) :
    replaced (keywordOf (paramOf line)) (turn turned text) = turn (turned || turnsSlashes line) text := by
  have hkeep : turn (turned || false) text = turn turned text := by rw [Bool.or_false]
  have hmap : (turn turned text).map slash = turn (turned || true) text := by
    rw [turn_slash, Bool.or_true]
    rfl
  rw [turnsSlashes, h]
  cases keywordOf (paramOf line) with
  | none => exact hkeep.symm
  | some k =>
      cases k with
      | kernel => exact hmap
      | initrd => exact hmap
      | title => exact hkeep.symm
      | append => exact hkeep.symm
      | default => exact hkeep.symm

/-! ### Lines without the white space at the end of the text -/

theorem trimEnd_trail (text : List UInt8) : trimEnd (text.rtakeWhile isspace) = [] :=
  List.rdropWhile_eq_nil_iff.mpr fun _ hb => isspace_of_mem_trail text hb

theorem trim_trimEnd (text : List UInt8) : trim (trimEnd text) = trim text := by
  by_cases hempty : trimEnd text = []
  · rw [hempty, trim_eq_nil hempty]
    rfl
  · have hne : ((trimEnd text).dropWhile isspace).isEmpty = false := by
      rw [List.isEmpty_eq_false_iff, ne_eq, List.dropWhile_eq_nil_iff]
      intro hall
      exact List.rdropWhile_last_not isspace text hempty (hall _ (List.getLast_mem hempty))
    rw [trim, trim]
    nth_rewrite 2 [← trimEnd_append_trail text]
    rw [List.dropWhile_append, hne, if_neg Bool.false_ne_true, trimEnd_append, if_pos (trimEnd_trail text)]

theorem trimEnd_separator {c : UInt8} (hc : c ∈ [0x20, 0x09]) (param v : List UInt8) :
    trimEnd (param ++ c :: v) = if trimEnd v = [] then trimEnd param else param ++ c :: trimEnd v := by
  have hspace : trimEnd [c] = [] := by
    rw [List.mem_cons, List.mem_singleton] at hc
    rcases hc with rfl | rfl
    · rfl
    · rfl
  rw [trimEnd_append, show c :: v = [c] ++ v from rfl, trimEnd_append, hspace]
  by_cases hv : trimEnd v = []
  · rw [if_pos hv, if_pos hv, if_pos rfl]
  · rw [if_neg hv, if_neg hv, if_neg (List.append_ne_nil_of_right_ne_nil _ hv)]
    rfl

theorem afterSeparator_append {param v : List UInt8} {c : UInt8} (hparam : ∀ b ∈ param, b ∉ [0x20, 0x09])
    (hc : c ∈ [0x20, 0x09]) : afterSeparator (param ++ c :: v) = some v := by
  have hall : ∀ b ∈ param, (!isSeparator b) = true := by
    intro b hb
    simpa [isSeparator] using hparam b hb
  have hstop : (!isSeparator c) = false := by
    rw [List.mem_cons, List.mem_singleton] at hc
    rcases hc with rfl | rfl
    · rfl
    · rfl
  rw [afterSeparator, List.dropWhile_append_of_pos hall, List.dropWhile_cons_of_neg (by rw [hstop]; decide)]
  rfl

theorem afterSeparator_eq_none {line : List UInt8} (h : ∀ b ∈ line, b ∉ [0x20, 0x09]) : afterSeparator line = none := by
  have hall : ∀ b ∈ line, (!isSeparator b) = true := by
    intro b hb
    simpa [isSeparator] using h b hb
  rw [afterSeparator, List.dropWhile_eq_nil_iff.mpr hall]
  rfl

/-- What stands behind the separator of a line without the white space at its end. -/
theorem afterSeparator_trimEnd (line : List UInt8) :
    afterSeparator (trimEnd line) =
      (afterSeparator line).bind fun v => if trimEnd v = [] then none else some (trimEnd v) := by
  have hword : ∀ b ∈ paramOf line, b ∉ [0x20, 0x09] := fun b hb => (paramOf_spec hb).2
  cases hv : afterSeparator line with
  | none =>
      rw [afterSeparator_none hv] at hword
      exact afterSeparator_eq_none fun b hb => hword b ((List.rdropWhile_prefix isspace line).subset hb)
  | some v =>
      obtain ⟨c, hline, hc⟩ := afterSeparator_some hv
      rw [hline, trimEnd_separator hc]
      show _ = if trimEnd v = [] then none else some (trimEnd v)
      split
      · exact afterSeparator_eq_none fun b hb => hword b ((List.rdropWhile_prefix isspace _).subset hb)
      · exact afterSeparator_append hword hc

/-- The value of a last line, when what follows it is white space. -/
theorem lineValue_trimEnd (line : List UInt8) {rest : List (List UInt8)} (h : trimEnd (joinLines rest) = []) :
    lineValue [] (trimEnd line) [] = lineValue [] line rest := by
  rw [lineValue, lineValue, afterSeparator_trimEnd]
  cases afterSeparator line with
  | none =>
      show [] = if rest = [] then [] else trim (joinLines rest)
      rw [trim_eq_nil h, ite_self]
  | some v =>
      show (match (if trimEnd v = [] then none else some (trimEnd v)) with
        | some v => trim v
        | none => trim (cString [])) = trim v
      by_cases hempty : trimEnd v = []
      · rw [if_pos hempty, trim_eq_nil hempty]
        rfl
      · rw [if_neg hempty]
        exact trim_trimEnd v

/-- The tokens that do something. -/
def keyed (tokens : List Token) : List Token := tokens.filter fun t => t.keyword.isSome

theorem keyed_cons (t : Token) (tokens : List Token) :
    keyed (t :: tokens) = if t.keyword.isSome = true then t :: keyed tokens else keyed tokens := List.filter_cons

theorem trimEnd_joinLines_nil {ls : List (List UInt8)} (h : trimEnd (joinLines ls) = []) :
    ∀ line ∈ ls, trimEnd line = [] := by
  induction ls with
  | nil =>
      exact fun line hline => nomatch hline
  | cons line rest ih =>
      cases rest with
      | nil =>
          intro line' hline
          rw [List.mem_singleton.mp hline]
          exact h
      | cons next rest =>
          rw [joinLines_cons line (List.cons_ne_nil _ _), trimEnd_append, trimEnd_newline] at h
          by_cases hempty : trimEnd (joinLines (next :: rest)) = []
          · rw [if_pos hempty, if_pos rfl] at h
            intro line' hline
            rcases List.mem_cons.mp hline with rfl | hline
            · exact h
            · exact ih hempty line' hline
          · rw [if_neg hempty, if_neg (List.cons_ne_nil _ _)] at h
            exact absurd h (List.append_ne_nil_of_right_ne_nil _ (List.cons_ne_nil _ _))

/-! ### What is found in lines -/

/-- What is found in a line of a text whose backslashes are turned or not; not turned is what stands behind the text. -/
def lineFound (after : List UInt8) (turned : Bool) (line : List UInt8) (rest : List (List UInt8)) : Found where
  token := ⟨keywordOf (paramOf line), if afterSeparator line = none ∧ rest = [] then lineValue after line rest
    else turn turned (lineValue after line rest)⟩
  stays := (afterSeparator line).isSome || rest.isEmpty || (lineValue after line rest).isEmpty

/-- What is found in lines. -/
def lineFounds (after : List UInt8) : Bool → List (List UInt8) → List Found
  | _, [] => []
  | turned, line :: rest =>
      lineFound after turned line rest :: lineFounds after (turned || turnsSlashes line) rest

/-- What is found in the lines with a keyword. -/
def keyedFounds (founds : List Found) : List Found := founds.filter fun found => found.token.keyword.isSome

theorem keyedFounds_cons (found : Found) (founds : List Found) :
    keyedFounds (found :: founds) =
      if found.token.keyword.isSome = true then found :: keyedFounds founds else keyedFounds founds := List.filter_cons

theorem map_token_keyedFounds (founds : List Found) :
    (keyedFounds founds).map Found.token = keyed (founds.map Found.token) := by
  rw [keyed, keyedFounds, List.filter_map]
  rfl

theorem lastDefault_keyed (founds : List Found) : lastDefault (keyedFounds founds) = lastDefault founds := by
  rw [lastDefault, lastDefault, keyedFounds, List.filter_filter]
  refine congrArg List.getLast? (List.filter_congr fun found _ => ?_)
  cases found.token.keyword with
  | none => rfl
  | some k => exact Bool.and_true _

/-- Without lines that turn backslashes the tokens are those of the lines. -/
theorem lineFounds_kept (after : List UInt8) {ls : List (List UInt8)} (h : ∀ line ∈ ls, turnsSlashes line = false) :
    (lineFounds after false ls).map Found.token = lineTokens after ls := by
  induction ls with
  | nil =>
      rfl
  | cons line rest ih =>
      have hfirst : (lineFound after false line rest).token = ⟨keywordOf (paramOf line), lineValue after line rest⟩ := by
        rw [lineFound]
        exact congrArg (Token.mk _) (ite_self _)
      rw [lineFounds, h line List.mem_cons_self, List.map_cons, hfirst, lineTokens]
      exact congrArg _ (ih fun line hline => h line (List.mem_cons_of_mem _ hline))

theorem lineFounds_space {after : List UInt8} (h : trim (cString after) = []) (turned : Bool) (ls : List (List UInt8)) :
    lineFounds after turned ls = lineFounds [] turned ls := by
  induction ls generalizing turned with
  | nil =>
      rfl
  | cons line rest ih =>
      have hvalue : lineValue after line rest = lineValue [] line rest := by
        rw [lineValue, lineValue, h]
        rfl
      rw [lineFounds, lineFounds, ih, lineFound, lineFound, hvalue]

theorem keyedFounds_space {ls : List (List UInt8)} (after : List UInt8) (turned : Bool)
    (h : ∀ line ∈ ls, trimEnd line = []) : keyedFounds (lineFounds after turned ls) = [] := by
  induction ls generalizing turned with
  | nil =>
      rfl
  | cons line rest ih =>
      have hnone : (lineFound after turned line rest).token.keyword = none :=
        keywordOf_space (h line List.mem_cons_self)
      rw [lineFounds, keyedFounds_cons, hnone, if_neg (fun h => nomatch h)]
      exact ih _ fun line hline => h line (List.mem_cons_of_mem _ hline)

/-- The last line without the white space at its end, when what follows it is white space. -/
theorem lineFound_trimEnd (turned : Bool) (line : List UInt8) {rest : List (List UInt8)}
    (h : trimEnd (joinLines rest) = []) : lineFound [] turned (trimEnd line) [] = lineFound [] turned line rest := by
  have hvalue := lineValue_trimEnd line h
  have hnone : ∀ {line : List UInt8} {rest : List (List UInt8)}, trimEnd (joinLines rest) = [] →
      afterSeparator line = none → lineValue [] line rest = [] := by
    intro line rest hrest hsep
    rw [lineValue, hsep]
    dsimp only
    rw [trim_eq_nil hrest]
    exact ite_self _
  have hturned : ∀ {line : List UInt8} {rest : List (List UInt8)}, trimEnd (joinLines rest) = [] →
      (if afterSeparator line = none ∧ rest = [] then lineValue [] line rest else turn turned (lineValue [] line rest)) =
        turn turned (lineValue [] line rest) := by
    intro line rest hrest
    split
    case isTrue hlast => rw [hnone hrest hlast.1, turn_nil]
    case isFalse _ => rfl
  have hstays : ((afterSeparator line).isSome || rest.isEmpty || (lineValue [] line rest).isEmpty) = true := by
    cases hsep : afterSeparator line with
    | some v => rfl
    | none =>
        rw [hnone h hsep, List.isEmpty_nil, Bool.or_true]
  rw [lineFound, lineFound, hturned rfl, hturned h, hvalue, keywordOf_trimEnd, hstays, List.isEmpty_nil, Bool.or_true,
    Bool.true_or]

/-- The white space at the end of the text has no part in what is found. -/
theorem keyedFounds_trimLines (turned : Bool) (ls : List (List UInt8)) :
    keyedFounds (lineFounds [] turned (trimLines ls)) = keyedFounds (lineFounds [] turned ls) := by
  induction ls generalizing turned with
  | nil =>
      rfl
  | cons line rest ih =>
      rw [trimLines]
      by_cases hempty : trimEnd (joinLines rest) = []
      · have hrest := keyedFounds_space [] (turned || turnsSlashes line) (trimEnd_joinLines_nil hempty)
        rw [if_pos hempty, lineFounds, lineFounds, lineFounds, lineFound_trimEnd turned line hempty, keyedFounds_cons,
          keyedFounds_cons, hrest]
        rfl
      · have hne : rest ≠ [] := by
          rintro rfl
          exact hempty rfl
        have hne' := trimLines_ne_nil hne
        have hvalue : lineValue [] line (trimLines rest) = lineValue [] line rest := by
          rw [lineValue, lineValue, if_neg hne, if_neg hne', joinLines_trimLines, trim_trimEnd]
        have hfound : lineFound [] turned line (trimLines rest) = lineFound [] turned line rest := by
          rw [lineFound, lineFound, hvalue, if_neg fun h => hne' h.2, if_neg fun h => hne h.2,
            List.isEmpty_eq_false_iff.mpr hne, List.isEmpty_eq_false_iff.mpr hne']
        rw [if_neg hempty, lineFounds, lineFounds, hfound, keyedFounds_cons, keyedFounds_cons, ih]

/-- A text with a trimmed tail ends in white space. -/
theorem TrimsTail.ends {ls : List (List UInt8)} (h : TrimsTail ls) : trimEnd (joinLines ls) ≠ joinLines ls := by
  induction ls with
  | nil =>
      exact h.elim
  | cons line rest ih =>
      have hrest : trimEnd (joinLines rest) ≠ joinLines rest := h.elim (fun hfirst => hfirst.2) ih
      have hne : rest ≠ [] := by
        rintro rfl
        exact hrest rfl
      rw [joinLines_cons line hne, trimEnd_append, trimEnd_newline]
      by_cases hempty : trimEnd (joinLines rest) = []
      · rw [if_pos hempty, if_pos rfl]
        intro heq
        have hle := (List.rdropWhile_prefix isspace line).length_le
        have hlength := congrArg List.length heq
        rw [List.length_append, List.length_cons] at hlength
        have hline : (trimEnd line).length ≤ line.length := hle
        omega
      · rw [if_neg hempty, if_neg (List.cons_ne_nil _ _)]
        intro heq
        exact hrest (List.cons.inj (List.append_cancel_left heq)).2

theorem not_trimsTail_trimLines (ls : List (List UInt8)) : ¬ TrimsTail (trimLines ls) := by
  intro h
  refine h.ends ?_
  rw [joinLines_trimLines]
  exact List.rdropWhile_idempotent isspace _

theorem mem_trimLines {ls : List (List UInt8)} {line : List UInt8} (h : line ∈ trimLines ls) :
    ∃ whole ∈ ls, line = whole ∨ line = trimEnd whole := by
  induction ls with
  | nil =>
      cases h
  | cons first rest ih =>
      rw [trimLines] at h
      split at h
      · exact ⟨first, List.mem_cons_self, Or.inr (List.mem_singleton.mp h)⟩
      · rcases List.mem_cons.mp h with rfl | h
        · exact ⟨_, List.mem_cons_self, Or.inl rfl⟩
        · obtain ⟨whole, hmem, heq⟩ := ih h
          exact ⟨whole, List.mem_cons_of_mem _ hmem, heq⟩

theorem trimLines_length (ls : List (List UInt8)) : (trimLines ls).length ≤ ls.length := by
  induction ls with
  | nil =>
      exact Nat.le_refl _
  | cons line rest ih =>
      rw [trimLines]
      split
      · rw [List.length_singleton, List.length_cons]
        omega
      · rw [List.length_cons, List.length_cons]
        omega

/-! ### The pass over lines -/

/-- The failure at the end of a text: its last line has no separator, and the search for the value leaves the text. -/
def lastFault (limit endPos : Nat) (line tail : List UInt8) : Option Fault :=
  if (afterSeparator line).isSome then none
  else if 0 ∈ tail then
    if endPos + 1 + (trimEnd (cString tail)).length < limit then none else some .store
  else some .load

section Pass

variable {limit : Nat} {tail : List UInt8}

/-- The pass over a text whose tail is not trimmed. -/
theorem found_lines (limit : Nat) (tail : List UInt8) {ls : List (List UInt8)} (hne : ls ≠ [])
    (hlines : ∀ line ∈ ls, 0x0a ∉ line) (hkeep : ¬ TrimsTail ls) {rounds : Nat} (hrounds : ls.length ≤ rounds)
    (pos : Nat) (turned : Bool) :
    scanFound replaced limit rounds pos (turn turned (joinLines ls)) tail =
      match lastFault limit (pos + (joinLines ls).length) (ls.getLast hne) tail with
      | none => .ok (lineFounds tail turned ls)
      | some e => .error e := by
  induction ls generalizing rounds pos turned with
  | nil =>
      exact absurd rfl hne
  | cons line rest ih =>
      obtain ⟨rounds, rfl⟩ : ∃ r, rounds = r + 1 := ⟨rounds - 1, by rw [List.length_cons] at hrounds; omega⟩
      have hline := hlines line List.mem_cons_self
      by_cases hrest : rest = []
      · subst hrest
        have hjoin : joinLines [line] = line := rfl
        rw [hjoin, found_last (notMem_turn turned hline), afterSeparator_turn, keywordOf_turn, turn_length,
          List.getLast_singleton, lastFault, lineFounds, lineFounds, lineFound, lineValue]
        cases afterSeparator line with
        | some v =>
            rw [Option.map_some]
            dsimp only
            rw [trim_turn]
            rfl
        | none =>
            by_cases htail : 0 ∈ tail
            · by_cases hlt : pos + line.length + 1 + (trimEnd (cString tail)).length < limit
              · simp only [htail, hlt, Option.isSome_none, Bool.false_eq_true, if_false, if_true, and_self,
                  Option.map_none, List.isEmpty_nil, Bool.or_true, Bool.true_or]
              · simp only [htail, hlt, Option.isSome_none, Bool.false_eq_true, if_false, if_true, Option.map_none]
            · simp only [if_neg htail, Option.isSome_none, Bool.false_eq_true, if_false, Option.map_none]
      · have hrounds' : rest.length ≤ rounds := by
          rw [List.length_cons] at hrounds
          omega
        have hnext := ih hrest (fun line hmem => hlines line (List.mem_cons_of_mem _ hmem))
          (fun h => hkeep (Or.inr h)) hrounds' (pos + line.length + 1)
        have hend : pos + line.length + 1 + (joinLines rest).length = pos + (joinLines (line :: rest)).length := by
          rw [joinLines_cons line hrest, List.length_append, List.length_cons]
          omega
        rw [hend] at hnext
        rw [List.getLast_cons hrest, lineFounds, lineFound, lineValue, if_neg fun h => hrest h.2,
          List.isEmpty_eq_false_iff.mpr hrest]
        nth_rewrite 1 [joinLines_cons line hrest]
        rw [turn_line, found_line (notMem_turn turned hline), afterSeparator_turn, keywordOf_turn, turn_length]
        cases hsep : afterSeparator line with
        | some v =>
            rw [Option.map_some]
            dsimp only
            rw [hnext, trim_turn, turnsSlashes_some turned hsep]
            cases lastFault limit (pos + (joinLines (line :: rest)).length) (rest.getLast hrest) tail with
            | none => rfl
            | some e => rfl
        | none =>
            have htrim : trimEnd (joinLines rest) = joinLines rest := by
              by_contra hne'
              exact hkeep (Or.inl ⟨hsep, hne'⟩)
            have hdrop : (turn turned (joinLines rest) ++ 0 :: tail).drop ((turn turned (joinLines rest)).length + 1) =
                tail := by
              rw [← List.drop_drop, List.drop_left]
              rfl
            have hempty : (turn turned (trim (joinLines rest))).isEmpty = (trim (joinLines rest)).isEmpty := by
              rw [Bool.eq_iff_iff, List.isEmpty_iff, List.isEmpty_iff, turn_eq_nil]
            rw [Option.map_none]
            dsimp only
            rw [trimEnd_turn, htrim, trim_turn, replaced_turn turned hsep, hdrop, hnext, if_neg hrest, hempty]
            cases lastFault limit (pos + (joinLines (line :: rest)).length) (rest.getLast hrest) tail with
            | none => rfl
            | some e => rfl

/-- What stands behind a text whose white space is cut: the white space is the same when backslashes are turned. -/
theorem drop_turn (turned : Bool) (text tail : List UInt8) :
    (turn turned text ++ 0 :: tail).drop ((trimEnd (turn turned text)).length + 1) =
      (text ++ 0 :: tail).drop ((trimEnd text).length + 1) := by
  have hsplit : turn turned text = turn turned (trimEnd text) ++ text.rtakeWhile isspace := by
    rw [← turn_space turned _ fun b hb => isspace_of_mem_trail text hb, trimEnd_append_trail]
  have hcut : ∀ {front : List UInt8} {n : Nat}, front.length = n →
      (front ++ text.rtakeWhile isspace ++ 0 :: tail).drop (n + 1) = (text.rtakeWhile isspace ++ 0 :: tail).drop 1 := by
    intro front n hn
    rw [List.append_assoc, ← hn, ← List.drop_drop, List.drop_left]
  rw [trimEnd_turn, turn_length, hsplit, hcut (turn_length turned)]
  nth_rewrite 3 [← trimEnd_append_trail text]
  exact (hcut rfl).symm

/-- The pass behind the line that cuts the white space: the last line finds an empty value in what was cut. -/
theorem found_cut (limit : Nat) (tail : List UInt8) {ls : List (List UInt8)} (hne : ls ≠ [])
    (hlines : ∀ line ∈ ls, 0x0a ∉ line ∧ 0 ∉ line) (hends : trimEnd (joinLines ls) ≠ joinLines ls) {rounds : Nat}
    (hrounds : ls.length ≤ rounds) (pos : Nat) (hlimit : pos + (joinLines ls).length < limit) (turned : Bool) :
    ∃ founds, scanFound replaced limit rounds pos (turn turned (trimEnd (joinLines ls)))
        ((joinLines ls ++ 0 :: tail).drop ((trimEnd (joinLines ls)).length + 1)) = .ok founds ∧
      keyedFounds founds = keyedFounds (lineFounds [] turned ls) := by
  have hpart : ∀ line ∈ trimLines ls, 0x0a ∉ line := by
    intro line hmem
    obtain ⟨whole, hwhole, rfl | rfl⟩ := mem_trimLines hmem
    · exact (hlines _ hwhole).1
    · exact notMem_trimEnd (hlines _ hwhole).1
  obtain ⟨c, trail, htrail⟩ : ∃ c trail, (joinLines ls).rtakeWhile isspace = c :: trail := by
    refine List.exists_cons_of_ne_nil fun hnil => hends ?_
    have happend := trimEnd_append_trail (joinLines ls)
    rw [hnil, List.append_nil] at happend
    exact happend
  have hsplit : joinLines ls = trimEnd (joinLines ls) ++ c :: trail := by
    rw [← htrail, trimEnd_append_trail]
  have hspace : ∀ b ∈ trail, isspace b = true := fun b hb =>
    isspace_of_mem_trail (joinLines ls) (by rw [htrail]; exact List.mem_cons_of_mem _ hb)
  have hzero : 0 ∉ trail := fun h => absurd (hspace 0 h) (by decide)
  have hrest : (joinLines ls ++ 0 :: tail).drop ((trimEnd (joinLines ls)).length + 1) = trail ++ 0 :: tail := by
    nth_rewrite 2 [hsplit]
    rw [List.append_assoc, ← List.drop_drop, List.drop_left]
    rfl
  have hempty : trimEnd trail = [] := List.rdropWhile_eq_nil_iff.mpr hspace
  have hlength := congrArg List.length hsplit
  rw [List.length_append, List.length_cons] at hlength
  rw [hrest, ← joinLines_trimLines, found_lines limit _ (trimLines_ne_nil hne) hpart (not_trimsTail_trimLines ls)
    (Nat.le_trans (trimLines_length ls) hrounds) pos, joinLines_trimLines]
  have hnone : lastFault limit (pos + (trimEnd (joinLines ls)).length)
      ((trimLines ls).getLast (trimLines_ne_nil hne)) (trail ++ 0 :: tail) = none := by
    have hroom : pos + (trimEnd (joinLines ls)).length + 1 + ([] : List UInt8).length < limit := by
      rw [List.length_nil]
      omega
    rw [lastFault, cString_append tail hzero, hempty, if_pos (List.mem_append_right _ List.mem_cons_self),
      if_pos hroom, ite_self]
  rw [hnone]
  refine ⟨_, rfl, ?_⟩
  rw [← keyedFounds_trimLines, lineFounds_space (by rw [cString_append tail hzero]; exact trim_eq_nil hempty)]

/-- The pass over a text whose tail is trimmed stays inside, and what it finds is what is found in the lines. -/
theorem found_trimmed {ls : List (List UInt8)} (hlines : ∀ line ∈ ls, 0x0a ∉ line ∧ 0 ∉ line) (htrim : TrimsTail ls)
    {rounds : Nat} (hrounds : ls.length ≤ rounds) {pos : Nat} (hlimit : pos + (joinLines ls).length < limit)
    (turned : Bool) :
    ∃ founds, scanFound replaced limit rounds pos (turn turned (joinLines ls)) tail = .ok founds ∧
      keyedFounds founds = keyedFounds (lineFounds [] turned ls) := by
  induction ls generalizing rounds pos turned with
  | nil =>
      exact htrim.elim
  | cons line rest ih =>
      obtain ⟨rounds, rfl⟩ : ∃ r, rounds = r + 1 := ⟨rounds - 1, by rw [List.length_cons] at hrounds; omega⟩
      have hrest : rest ≠ [] := by
        rintro rfl
        exact htrim.elim (fun h => h.2 rfl) id
      have hrounds' : rest.length ≤ rounds := by
        rw [List.length_cons] at hrounds
        omega
      rw [joinLines_cons line hrest, List.length_append, List.length_cons] at hlimit
      have hlater : TrimsTail rest → ∀ turned, ∃ founds,
          scanFound replaced limit rounds (pos + line.length + 1) (turn turned (joinLines rest)) tail = .ok founds ∧
            keyedFounds founds = keyedFounds (lineFounds [] turned rest) := fun h =>
        ih (fun line hmem => hlines line (List.mem_cons_of_mem _ hmem)) h hrounds' (by omega)
      rw [joinLines_cons line hrest, turn_line, found_line (notMem_turn turned (hlines line List.mem_cons_self).1),
        afterSeparator_turn, keywordOf_turn, turn_length, lineFounds, lineFound, lineValue, if_neg fun h => hrest h.2,
        List.isEmpty_eq_false_iff.mpr hrest]
      cases hsep : afterSeparator line with
      | some v =>
          obtain ⟨founds, hscan, hkeyed⟩ := hlater (htrim.resolve_left fun h => by rw [hsep] at h; cases h.1) turned
          rw [Option.map_some]
          dsimp only
          rw [hscan, trim_turn, turnsSlashes_some turned hsep]
          exact ⟨_, rfl, by rw [keyedFounds_cons, keyedFounds_cons, hkeyed]; rfl⟩
      | none =>
          have hempty : (turn turned (trim (joinLines rest))).isEmpty = (trim (joinLines rest)).isEmpty := by
            rw [Bool.eq_iff_iff, List.isEmpty_iff, List.isEmpty_iff, turn_eq_nil]
          rw [Option.map_none]
          dsimp only
          rw [drop_turn, trimEnd_turn, trim_turn, replaced_turn turned hsep, if_neg hrest, hempty]
          by_cases hends : trimEnd (joinLines rest) = joinLines rest
          · obtain ⟨founds, hscan, hkeyed⟩ :=
              hlater (htrim.resolve_left fun h => h.2 hends) (turned || turnsSlashes line)
            have hdrop : (joinLines rest ++ 0 :: tail).drop ((joinLines rest).length + 1) = tail := by
              rw [← List.drop_drop, List.drop_left]
              rfl
            rw [hends, hdrop, hscan]
            exact ⟨_, rfl, by rw [keyedFounds_cons, keyedFounds_cons, hkeyed]; rfl⟩
          · obtain ⟨founds, hscan, hkeyed⟩ := found_cut limit tail hrest
              (fun line hmem => hlines line (List.mem_cons_of_mem _ hmem)) hends hrounds'
              (pos + line.length + 1) (by omega) (turned || turnsSlashes line)
            rw [hscan]
            exact ⟨_, rfl, by rw [keyedFounds_cons, keyedFounds_cons, hkeyed]; rfl⟩

end Pass

end Cromwell.Config
