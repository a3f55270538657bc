/-
Module: Cromwell.Config.Scan
Layer: Proofs
Purpose: The loop of `ParseConfig` as a pass over the text alone. `scan` goes through the bytes in front of the first
  NUL line by line and says which keyword every line has and with which value; the loop gives the entries that
  these tokens make, and fails exactly where `scan` fails.
Imports: Cromwell.Config.BootParser
Trusted boundary: none
Main exports: Keyword, Token, trim, Token.apply, scan, Found, scanFound, parseLoop_scan, parseConfig_founds
-/
import Cromwell.Config.BootParser

namespace Cromwell.Config

open BootLibrary

/-! ### Tokens -/

/-- A text without the white space at its end. -/
def trimEnd (text : List UInt8) : List UInt8 := text.rdropWhile isspace

/-- A text without the white space at both ends. -/
def trim (text : List UInt8) : List UInt8 := trimEnd (text.dropWhile isspace)

/-- What `chrreplace` does to a byte of a file name. -/
def slash (b : UInt8) : UInt8 := if b = 0x5c then 0x2f else b

def isSeparator (b : UInt8) : Bool := b == 0x20 || b == 0x09

/-- The first word of a line. -/
def paramOf (line : List UInt8) : List UInt8 := line.takeWhile fun b => !isSeparator b

/-- The rest of a line behind its first separator. -/
def afterSeparator (line : List UInt8) : Option (List UInt8) := (line.dropWhile fun b => !isSeparator b).tail?

inductive Keyword where
  | title
  | kernel
  | initrd
  | append
  | default
deriving DecidableEq, Repr

/-- The keyword that `ParseConfig` sees in a word. -/
def keywordOf (param : List UInt8) : Option Keyword :=
  if strncmp param titleWord 5 = 0 then some .title
  else if strncmp param kernelWord 6 = 0 then some .kernel
  else if strncmp param initrdWord 6 = 0 then some .initrd
  else if strncmp param appendWord 6 = 0 then some .append
  else if strncmp param defaultWord 7 = 0 then some .default
  else none

/-- A line: its keyword, if it has one, and its value. -/
structure Token where
  keyword : Option Keyword
  value : List UInt8
deriving DecidableEq, Repr

/-! ### White space -/

theorem trimEnd_append_trail (text : List UInt8) : trimEnd text ++ text.rtakeWhile isspace = text :=
  List.rdropWhile_append_rtakeWhile

theorem notMem_trimEnd {text : List UInt8} {b : UInt8} (h : b ∉ text) : b ∉ trimEnd text := fun hb =>
  h ((List.rdropWhile_prefix isspace text).subset hb)

theorem notMem_trim {text : List UInt8} {b : UInt8} (h : b ∉ text) : b ∉ trim text :=
  notMem_trimEnd fun hb => h ((List.dropWhile_suffix isspace).subset hb)

/-- The bytes that are cut off are white space. -/
theorem isspace_of_mem_trail (text : List UInt8) {b : UInt8} (h : b ∈ text.rtakeWhile isspace) : isspace b = true := by
  rw [List.rtakeWhile, List.mem_reverse] at h
  exact List.mem_takeWhile_imp h

/-- The byte behind the leading white space, or behind the text, is none. -/
theorem dropWhile_isspace_cons (text rest : List UInt8) :
    ∃ c r, text.dropWhile isspace ++ 0 :: rest = c :: r ∧ isspace c = false := by
  cases hdrop : text.dropWhile isspace with
  | nil =>
      exact ⟨0, rest, rfl, rfl⟩
  | cons c r =>
      refine ⟨c, r ++ 0 :: rest, rfl, ?_⟩
      have hne : text.dropWhile isspace ≠ [] := by rw [hdrop]; exact List.cons_ne_nil c r
      have hhead := List.head_dropWhile_not isspace hne
      simpa [hdrop] using hhead

/-- Leading white space belongs to a text that does not end in it. -/
theorem lead_length_le (text : List UInt8) (h : trimEnd text ≠ []) :
    (text.takeWhile isspace).length < (trimEnd text).length := by
  by_contra hle
  rw [Nat.not_lt] at hle
  have hlast := List.rdropWhile_last_not isspace text h
  refine hlast ?_
  have hprefix : trimEnd text <+: text.takeWhile isspace :=
    List.prefix_of_prefix_length_le (List.rdropWhile_prefix isspace text) (List.takeWhile_prefix isspace) hle
  exact List.mem_takeWhile_imp (List.IsPrefix.subset hprefix (List.getLast_mem h))

/-- Only the end of the second part is cut, unless it is all white space. -/
theorem trimEnd_append (a b : List UInt8) :
    trimEnd (a ++ b) = if trimEnd b = [] then trimEnd a else a ++ trimEnd b := by
  rw [trimEnd, List.rdropWhile, List.reverse_append, List.dropWhile_append]
  by_cases hb : trimEnd b = []
  · have hempty : b.reverse.dropWhile isspace = [] := List.reverse_eq_nil_iff.mp hb
    rw [if_pos hb, hempty, List.isEmpty_nil, if_pos rfl]
    rfl
  · have hne : (b.reverse.dropWhile isspace).isEmpty = false := by
      rw [List.isEmpty_eq_false_iff]
      intro hempty
      exact hb (by rw [trimEnd, List.rdropWhile, hempty]; rfl)
    rw [if_neg hb, hne, if_neg Bool.false_ne_true, List.reverse_append, List.reverse_reverse]
    rfl

/-- The value stands behind the leading white space. -/
theorem trimEnd_eq_lead_append {text : List UInt8} (h : trimEnd text ≠ []) :
    trimEnd text = text.takeWhile isspace ++ trim text := by
  have hsplit : trimEnd text = trimEnd (text.takeWhile isspace ++ text.dropWhile isspace) := by
    rw [List.takeWhile_append_dropWhile]
  rw [trimEnd_append] at hsplit
  split at hsplit
  case isTrue hempty =>
    rw [hsplit] at h
    exact absurd (List.rdropWhile_eq_nil_iff.mpr fun b hb => List.mem_takeWhile_imp hb) h
  case isFalse _ =>
    exact hsplit

theorem trim_eq_nil {text : List UInt8} (h : trimEnd text = []) : trim text = [] := by
  have hall := List.rdropWhile_eq_nil_iff.mp h
  exact List.rdropWhile_eq_nil_iff.mpr fun b hb => hall b ((List.dropWhile_suffix isspace).subset hb)

theorem slash_of_space {b : UInt8} (h : isspace b = true) : slash b = b := by
  refine if_neg fun hb => ?_
  rw [hb] at h
  exact absurd h (by decide)

theorem map_slash_of_space {ws : List UInt8} (h : ∀ b ∈ ws, isspace b = true) : ws.map slash = ws :=
  (List.map_congr_left fun b hb => slash_of_space (h b hb)).trans (List.map_id ws)

/-! ### Finding the value -/

section Value

variable {limit : Nat} {P body tail : List UInt8}

/-- The last byte in front of the trailing white space. -/
theorem last_not_space (P body R : List UInt8) :
    ∃ b, (P ++ 0 :: (trimEnd body ++ R))[P.length + (trimEnd body).length]? = some b ∧ isspace b = false := by
  rcases List.eq_nil_or_concat (trimEnd body) with hempty | ⟨front, c, hconcat⟩
  · refine ⟨0, ?_, rfl⟩
    rw [hempty, List.length_nil, Nat.add_zero, List.getElem?_append_right (Nat.le_refl _), Nat.sub_self,
      List.getElem?_cons_zero]
  · rw [List.concat_eq_append] at hconcat
    have hne : body.rdropWhile isspace ≠ [] := by
      rw [show body.rdropWhile isspace = front ++ [c] from hconcat]
      exact List.append_ne_nil_of_right_ne_nil _ (List.cons_ne_nil _ _)
    have hlast := List.rdropWhile_last_not isspace body hne
    refine ⟨c, ?_, ?_⟩
    · rw [hconcat, List.length_append, List.length_singleton, List.getElem?_append_right (by omega),
        Nat.add_sub_cancel_left, List.getElem?_cons_succ, List.append_assoc,
        List.getElem?_append_right (Nat.le_refl _), Nat.sub_self]
      rfl
    · have hget : (body.rdropWhile isspace).getLast hne = c := by
        simp only [show body.rdropWhile isspace = front ++ [c] from hconcat, List.getLast_append_singleton]
      rw [hget] at hlast
      exact Bool.eq_false_iff.mpr hlast

/-- The bytes of the trailing white space. -/
theorem trail_space {i : Nat} (R : List UInt8) (lo : P.length + (trimEnd body).length < i)
    (hi : i ≤ P.length + (trimEnd body).length + (body.rtakeWhile isspace).length) :
    ∃ b, (P ++ 0 :: (trimEnd body ++ (body.rtakeWhile isspace ++ R)))[i]? = some b ∧ isspace b = true := by
  obtain ⟨j, rfl⟩ : ∃ j, i = P.length + (1 + ((trimEnd body).length + j)) :=
    ⟨i - P.length - 1 - (trimEnd body).length, by omega⟩
  have hj : j < (body.rtakeWhile isspace).length := by omega
  refine ⟨(body.rtakeWhile isspace)[j], ?_, isspace_of_mem_trail body (List.getElem_mem hj)⟩
  rw [List.getElem?_append_right (Nat.le_add_right _ _), Nat.add_sub_cancel_left, Nat.add_comm 1,
    List.getElem?_cons_succ, List.getElem?_append_right (Nat.le_add_right _ _), Nat.add_sub_cancel_left,
    List.getElem?_append_left hj, List.getElem?_eq_getElem hj]

/-- `paramdata` is not a byte of the trailing white space. -/
theorem paramdata_not_trail {i : Nat} (lo : P.length + (trimEnd body).length < i)
    (hi : i ≤ P.length + (trimEnd body).length + (body.rtakeWhile isspace).length) :
    i ≠ P.length + 1 + (body.takeWhile isspace).length := by
  have htrail : (trimEnd body).length + (body.rtakeWhile isspace).length = body.length := by
    rw [← List.length_append, trimEnd_append_trail]
  by_cases hempty : trimEnd body = []
  · have hall := List.rdropWhile_eq_nil_iff.mp hempty
    rw [List.takeWhile_eq_self_iff.mpr hall]
    rw [hempty, List.length_nil] at hi htrail
    omega
  · have := lead_length_le body hempty
    omega

/-- Behind a NUL: `paramdata` is behind the leading white space, and a NUL is stored where the trailing one starts. -/
theorem takeParamdata_eq (limit : Nat) (P tail : List UInt8) (h : 0 ∉ body) :
    takeParamdata limit (P ++ 0 :: (body ++ 0 :: tail)) (P.length + 1) =
      if P.length + 1 + (trimEnd body).length < limit then
        .ok (P.length + 1 + (body.takeWhile isspace).length,
          P ++ 0 :: (trimEnd body ++ 0 :: (body ++ 0 :: tail).drop ((trimEnd body).length + 1)))
      else .error .store := by
  have hdrop : ∀ n, (P ++ 0 :: (body ++ 0 :: tail)).drop (P.length + 1 + n) = (body ++ 0 :: tail).drop n := by
    intro n
    rw [Nat.add_assoc, List.drop_append, Nat.add_sub_cancel_left, Nat.add_comm 1, List.drop_succ_cons,
      List.drop_eq_nil_of_le (by omega), List.nil_append]
  have hlead : body ++ 0 :: tail = body.takeWhile isspace ++ (body.dropWhile isspace ++ 0 :: tail) := by
    rw [← List.append_assoc, List.takeWhile_append_dropWhile]
  have hskip : skipSpaces (P ++ 0 :: (body ++ 0 :: tail)) (P.length + 1) =
      .ok (P.length + 1 + (body.takeWhile isspace).length) := by
    obtain ⟨c, r, hcons, hc⟩ := dropWhile_isspace_cons body tail
    rw [skipSpaces, hdrop 0, List.drop_zero, hlead, hcons]
    exact skipSpacesIn_eq (fun b hb => List.mem_takeWhile_imp hb) hc
  have hlen : strlen (P ++ 0 :: (body ++ 0 :: tail)) (P.length + 1 + (body.takeWhile isspace).length) =
      .ok (body.dropWhile isspace).length := by
    rw [strlen, hdrop, hlead, List.drop_left]
    exact strlenIn_eq fun hb => h ((List.dropWhile_suffix isspace).subset hb)
  have htrail : body ++ 0 :: tail = trimEnd body ++ (body.rtakeWhile isspace ++ 0 :: tail) := by
    rw [← List.append_assoc, trimEnd_append_trail]
  have hstrip : stripTrailing (P ++ 0 :: (body ++ 0 :: tail)) (P.length + 1 + (body.takeWhile isspace).length)
      (P.length + 1 + (body.takeWhile isspace).length + (body.dropWhile isspace).length - 1) =
      .ok (P.length + (trimEnd body).length) := by
    have hlength : (body.takeWhile isspace).length + (body.dropWhile isspace).length =
        (trimEnd body).length + (body.rtakeWhile isspace).length := by
      rw [← List.length_append, List.takeWhile_append_dropWhile, ← List.length_append, trimEnd_append_trail]
    obtain ⟨b, hb, hspace⟩ := last_not_space P body (body.rtakeWhile isspace ++ 0 :: tail)
    rw [show P.length + 1 + (body.takeWhile isspace).length + (body.dropWhile isspace).length - 1 =
      P.length + (trimEnd body).length + (body.rtakeWhile isspace).length by omega, htrail, stripTrailing_spaces]
    · exact stripTrailing_stop hb hspace
    · intro i lo hi
      exact ⟨paramdata_not_trail lo hi, trail_space _ lo hi⟩
  have hstore : storeByte limit (P ++ 0 :: (body ++ 0 :: tail)) (P.length + (trimEnd body).length + 1) 0 =
      if P.length + 1 + (trimEnd body).length < limit then
        .ok (P ++ 0 :: (trimEnd body ++ 0 :: (body ++ 0 :: tail).drop ((trimEnd body).length + 1)))
      else .error .store := by
    obtain ⟨c, R, hcons⟩ : ∃ c R, body.rtakeWhile isspace ++ 0 :: tail = c :: R :=
      List.exists_cons_of_ne_nil (List.append_ne_nil_of_right_ne_nil _ (List.cons_ne_nil _ _))
    have hrest : (body ++ 0 :: tail).drop ((trimEnd body).length + 1) = R := by
      rw [htrail, hcons, ← List.drop_drop, List.drop_left]
      rfl
    have hfront : (P ++ 0 :: trimEnd body).length = P.length + (trimEnd body).length + 1 := by
      rw [List.length_append, List.length_cons, Nat.add_assoc]
    rw [hrest, htrail, hcons, ← List.cons_append, ← List.append_assoc, ← hfront]
    split
    case isTrue hlt =>
      rw [storeByte_append (by rw [hfront]; omega), List.append_assoc, List.cons_append]
    case isFalse hge =>
      exact if_neg fun hboth => hge (by rw [hfront] at hboth; omega)
  rw [takeParamdata, hskip, ok_bind, hlen, ok_bind, hstrip, ok_bind, hstore]
  split
  · rfl
  · rfl

/-- Without another NUL the walk leaves the text. -/
theorem takeParamdata_load (limit : Nat) (P : List UInt8) (h : 0 ∉ tail) :
    takeParamdata limit (P ++ 0 :: tail) (P.length + 1) = .error .load := by
  have hdrop : ∀ n, (P ++ 0 :: tail).drop (P.length + 1 + n) = tail.drop n := by
    intro n
    rw [Nat.add_assoc, List.drop_append, Nat.add_sub_cancel_left, Nat.add_comm 1, List.drop_succ_cons,
      List.drop_eq_nil_of_le (by omega), List.nil_append]
  rw [takeParamdata, skipSpaces, hdrop 0, List.drop_zero]
  cases hrest : tail.dropWhile isspace with
  | nil =>
      have hall := List.dropWhile_eq_nil_iff.mp hrest
      rw [skipSpacesIn_load hall, error_bind]
  | cons c r =>
      have hne : tail.dropWhile isspace ≠ [] := by rw [hrest]; exact List.cons_ne_nil c r
      have hc : isspace c = false := by simpa [hrest] using List.head_dropWhile_not isspace hne
      have htail : tail = tail.takeWhile isspace ++ c :: r := by
        rw [← hrest, List.takeWhile_append_dropWhile]
      have hskip : skipSpacesIn tail (P.length + 1) = .ok (P.length + 1 + (tail.takeWhile isspace).length) := by
        nth_rewrite 1 [htail]
        exact skipSpacesIn_eq (fun b hb => List.mem_takeWhile_imp hb) hc
      rw [hskip, ok_bind, strlen, hdrop, strlenIn_load fun hb => h (List.mem_of_mem_drop hb), error_bind]

/-- The text with its value set apart: what stands in front of it, and what follows its NUL. -/
theorem value_apart (body tail : List UInt8) :
    ∃ front junk, front.length = P.length + 1 + (body.takeWhile isspace).length ∧
      P ++ 0 :: (trimEnd body ++ 0 :: (body ++ 0 :: tail).drop ((trimEnd body).length + 1)) =
        front ++ (trim body ++ 0 :: junk) ∧
      P ++ 0 :: ((trimEnd body).map slash ++ 0 :: (body ++ 0 :: tail).drop ((trimEnd body).length + 1)) =
        front ++ ((trim body).map slash ++ 0 :: junk) := by
  by_cases hempty : trimEnd body = []
  · have hall := List.rdropWhile_eq_nil_iff.mp hempty
    have hlead : body.takeWhile isspace = body := List.takeWhile_eq_self_iff.mpr hall
    rw [hempty, trim_eq_nil hempty, hlead]
    cases body with
    | nil =>
        exact ⟨P ++ [0], tail, by simp, by simp, by simp⟩
    | cons c r =>
        exact ⟨P ++ 0 :: 0 :: r, tail, by simp; omega, by simp, by simp⟩
  · refine ⟨P ++ 0 :: body.takeWhile isspace, (body ++ 0 :: tail).drop ((trimEnd body).length + 1), ?_, ?_, ?_⟩
    · rw [List.length_append, List.length_cons]
      omega
    · nth_rewrite 1 [trimEnd_eq_lead_append hempty]
      simp only [List.append_assoc, List.cons_append]
    · nth_rewrite 1 [trimEnd_eq_lead_append hempty]
      rw [List.map_append, map_slash_of_space fun b hb => List.mem_takeWhile_imp hb]
      simp only [List.append_assoc, List.cons_append]

end Value

/-! ### A line -/

/-- The closed entries and the current one after a token. -/
def Token.apply (szPath : Option (List UInt8)) (es : List CONFIGENTRY × CONFIGENTRY) (t : Token) :
    List CONFIGENTRY × CONFIGENTRY :=
  match t.keyword with
  | some .title =>
      if es.2.titleString.length = 0 then (es.1, es.2.storeTitle t.value)
      else (es.1 ++ [es.2], CONFIGENTRY.zero.storeTitle t.value)
  | some .kernel => (es.1, { es.2 with szKernel := es.2.szKernel.sprintf (filePath szPath (t.value.map slash)) })
  | some .initrd =>
      if strncmp (t.value.map slash) noWord 2 = 0 then es
      else (es.1, { es.2 with szInitrd := es.2.szInitrd.sprintf (filePath szPath (t.value.map slash)) })
  | some .append => (es.1, { es.2 with szAppend := es.2.szAppend.strncpy t.value })
  | some .default => es
  | none => es

/-- The value in the text after a line with the keyword. -/
def replaced : Option Keyword → List UInt8 → List UInt8
  | some .kernel, value => value.map slash
  | some .initrd, value => value.map slash
  | _, value => value

theorem replaced_cases (k : Option Keyword) :
    (∀ value, replaced k value = value) ∨ ∀ value, replaced k value = value.map slash := by
  cases k with
  | none => exact Or.inl fun _ => rfl
  | some k =>
      cases k with
      | kernel => exact Or.inr fun _ => rfl
      | initrd => exact Or.inr fun _ => rfl
      | title => exact Or.inl fun _ => rfl
      | append => exact Or.inl fun _ => rfl
      | default => exact Or.inl fun _ => rfl

/-- `defaultTitle` points to a string that ends in front of position `n`. -/
def Parser.DefaultAt (s : Parser) (n : Nat) (string : List UInt8) : Prop :=
  ∃ p, s.defaultTitle = some p ∧ p + string.length < n ∧ (s.mem.drop p).take (string.length + 1) = string ++ [0]

/-- Stores behind its end leave the string alone. -/
theorem Parser.DefaultAt.keeps {s s' : Parser} {n : Nat} {string : List UInt8} (h : s.DefaultAt n string)
    (hmem : s'.mem.take n = s.mem.take n) (hdefault : s'.defaultTitle = s.defaultTitle) : s'.DefaultAt n string := by
  obtain ⟨p, hp, hn, hstring⟩ := h
  have hpart : ∀ mem : List UInt8, (mem.drop p).take (string.length + 1) =
      ((mem.take n).drop p).take (string.length + 1) := by
    intro mem
    rw [List.drop_take, List.take_take, Nat.min_eq_left (by omega)]
  exact ⟨p, hdefault.trans hp, hn, by rw [hpart, hmem, ← hpart, hstring]⟩

theorem Parser.DefaultAt.mono {s : Parser} {n n' : Nat} {string : List UInt8} (h : s.DefaultAt n string)
    (hn : n ≤ n') : s.DefaultAt n' string := by
  obtain ⟨p, hp, hlt, hstring⟩ := h
  exact ⟨p, hp, Nat.lt_of_lt_of_le hlt hn, hstring⟩

/-- What a line with a value that ends in front of position `n` does to `defaultTitle`. -/
def SetsDefault (s s' : Parser) (k : Option Keyword) (n : Nat) (value : List UInt8) : Prop :=
  if k = some .default then s'.DefaultAt n value else s'.defaultTitle = s.defaultTitle

section Line

variable {limit : Nat} {szPath : Option (List UInt8)} {s : Parser}

theorem zero_notMem_map_slash {value : List UInt8} (h : 0 ∉ value) : 0 ∉ value.map slash := by
  intro hmem
  obtain ⟨b, hb, hzero⟩ := List.mem_map.mp hmem
  rw [slash] at hzero
  split at hzero
  · exact absurd hzero (by decide)
  · exact h (hzero ▸ hb)

theorem chrreplace_value {front value junk : List UInt8} (hzero : 0 ∉ value)
    (hlimit : value = [] ∨ front.length + value.length ≤ limit) :
    chrreplace limit (front ++ (value ++ 0 :: junk)) front.length 0x5c 0x2f =
      .ok (front ++ (value.map slash ++ 0 :: junk)) := by
  rw [chrreplace, List.drop_left, List.take_left, chrreplaceIn_eq hzero hlimit]
  rfl

/-- What a line does once its value is found. -/
theorem applyParam_eq (limit : Nat) (szPath : Option (List UInt8)) {front value junk : List UInt8} (param : List UInt8)
    (hmem : s.mem = front ++ (value ++ 0 :: junk))
    (hzero : 0 ∉ value) (hlimit : value = [] ∨ front.length + value.length ≤ limit) :
    ∃ s', applyParam limit szPath s param front.length = .ok s' ∧
      s'.mem = front ++ (replaced (keywordOf param) value ++ 0 :: junk) ∧
      (s'.entries, s'.currentEntry) = Token.apply szPath (s.entries, s.currentEntry) ⟨keywordOf param, value⟩ ∧
      s'.defaultTitle = if keywordOf param = some .default then some front.length else s.defaultTitle := by
  have hvalue : stringAt s.mem front.length = .ok value := by
    rw [hmem]
    exact stringAt_append front hzero
  have hreplace : chrreplace limit s.mem front.length 0x5c 0x2f = .ok (front ++ (value.map slash ++ 0 :: junk)) := by
    rw [hmem]
    exact chrreplace_value hzero hlimit
  have hslash := stringAt_append (r := junk) front (zero_notMem_map_slash hzero)
  unfold applyParam keywordOf
  split
  case isTrue htitle =>
    rw [hvalue, ok_bind, Token.apply]
    dsimp only
    split
    · exact ⟨_, rfl, hmem, rfl, rfl⟩
    · exact ⟨_, rfl, hmem, rfl, rfl⟩
  case isFalse _ =>
  split
  case isTrue hkernel =>
    rw [hreplace, ok_bind, hslash]
    exact ⟨_, rfl, rfl, rfl, rfl⟩
  case isFalse _ =>
  split
  case isTrue hinitrd =>
    rw [hreplace, ok_bind, hslash, ok_bind, Token.apply]
    dsimp only
    split
    · exact ⟨_, rfl, rfl, rfl, rfl⟩
    · exact ⟨_, rfl, rfl, rfl, rfl⟩
  case isFalse _ =>
  split
  case isTrue happend =>
    rw [hvalue]
    exact ⟨_, rfl, hmem, rfl, rfl⟩
  case isFalse _ =>
  split
  case isTrue hdefault =>
    exact ⟨_, rfl, hmem, rfl, rfl⟩
  case isFalse _ =>
    exact ⟨_, rfl, hmem, rfl, rfl⟩

/-- The first word of a line holds no separator and nothing that the line does not hold. -/
theorem paramOf_spec {line : List UInt8} {b : UInt8} (h : b ∈ paramOf line) : b ∈ line ∧ b ∉ [0x20, 0x09] := by
  refine ⟨(List.takeWhile_prefix _).subset h, ?_⟩
  have hb : (!isSeparator b) = true := List.mem_takeWhile_imp (p := fun b => !isSeparator b) h
  simpa [isSeparator] using hb

theorem afterSeparator_some {line v : List UInt8} (h : afterSeparator line = some v) :
    ∃ c, line = paramOf line ++ c :: v ∧ c ∈ [0x20, 0x09] := by
  rw [afterSeparator] at h
  cases hdrop : line.dropWhile (fun b => !isSeparator b) with
  | nil =>
      rw [hdrop] at h
      cases h
  | cons c r =>
      rw [hdrop] at h
      cases h
      refine ⟨c, ?_, ?_⟩
      · rw [← hdrop, paramOf, List.takeWhile_append_dropWhile]
      · have hne : line.dropWhile (fun b => !isSeparator b) ≠ [] := by rw [hdrop]; exact List.cons_ne_nil c v
        have hc : (!isSeparator c) = false := by simpa [hdrop] using List.head_dropWhile_not _ hne
        rw [Bool.not_eq_false', isSeparator, Bool.or_eq_true, beq_iff_eq, beq_iff_eq] at hc
        rcases hc with rfl | rfl
        · exact List.mem_cons_self
        · exact List.mem_cons_of_mem _ List.mem_cons_self

theorem afterSeparator_none {line : List UInt8} (h : afterSeparator line = none) : paramOf line = line := by
  rw [afterSeparator] at h
  cases hdrop : line.dropWhile (fun b => !isSeparator b) with
  | nil =>
      exact List.takeWhile_eq_self_iff.mpr (List.dropWhile_eq_nil_iff.mp hdrop)
  | cons c r =>
      rw [hdrop] at h
      cases h

theorem replaced_trimEnd_length (k : Option Keyword) (body : List UInt8) :
    (replaced k (trimEnd body)).length = (trimEnd body).length := by
  rcases replaced_cases k with hkeep | hmap
  · rw [hkeep]
  · rw [hmap, List.length_map]

/-- A line whose first word is cut off: the value comes from the bytes up to the next NUL. -/
theorem parseLine_eq (szPath : Option (List UInt8)) {pre param body tail : List UInt8} {next : Option Nat}
    (hsep : strsep limit s.mem pre.length [0x20, 0x09] = .ok (pre ++ (param ++ 0 :: (body ++ 0 :: tail)), next))
    (hparam : 0 ∉ param) (hbody : 0 ∉ body) (hlimit : pre.length + param.length + 1 + (trimEnd body).length < limit) :
    ∃ s', parseLine limit szPath s pre.length = .ok s' ∧
      s'.mem = pre ++ (param ++ 0 :: (replaced (keywordOf param) (trimEnd body) ++
        0 :: (body ++ 0 :: tail).drop ((trimEnd body).length + 1))) ∧
      (s'.entries, s'.currentEntry) =
        Token.apply szPath (s.entries, s.currentEntry) ⟨keywordOf param, trim body⟩ ∧
      SetsDefault s s' (keywordOf param) (pre.length + param.length + 1 + body.length + 1) (trim body) := by
  have hlength : (pre ++ param).length = pre.length + param.length := List.length_append
  have htake := takeParamdata_eq limit (pre ++ param) tail hbody
  rw [if_pos (by rw [hlength]; exact hlimit), List.append_assoc, List.append_assoc] at htake
  obtain ⟨front, junk, hfront, hvalue, hslash⟩ := value_apart (P := pre ++ param) body tail
  rw [List.append_assoc] at hvalue hslash
  have hsmall : trim body = [] ∨ front.length + (trim body).length ≤ limit := by
    by_cases hempty : trimEnd body = []
    · exact Or.inl (trim_eq_nil hempty)
    · have hlead := congrArg List.length (trimEnd_eq_lead_append hempty)
      rw [List.length_append] at hlead
      exact Or.inr (by omega)
  obtain ⟨s', hrun, hmem, hentries, hdefault⟩ := applyParam_eq limit szPath
    (s := { s with mem := front ++ (trim body ++ 0 :: junk) }) param rfl (notMem_trim hbody) hsmall
  refine ⟨s', ?_, ?_, hentries, ?_⟩
  · rw [parseLine, hsep, ok_bind]
    dsimp only
    rw [strlen, List.drop_left, strlenIn_eq hparam, ok_bind, ← hlength, htake, ok_bind]
    dsimp only
    rw [stringAt_append pre hparam, ok_bind, hvalue, ← hfront, hrun]
  · rw [hmem]
    rcases replaced_cases (keywordOf param) with hkeep | hmap
    · rw [hkeep, hkeep, hvalue]
    · rw [hmap, hmap, hslash]
  · rw [SetsDefault]
    split
    case isTrue hk =>
      rw [if_pos hk] at hdefault
      have hlead := (List.takeWhile_prefix (p := isspace) (l := body)).length_le
      have htrim : (body.takeWhile isspace).length + (trim body).length ≤ body.length := by
        have hparts := congrArg List.length (List.takeWhile_append_dropWhile (p := isspace) (l := body))
        have hshort : (trim body).length ≤ (body.dropWhile isspace).length :=
          (List.rdropWhile_prefix isspace _).length_le
        rw [List.length_append] at hparts
        omega
      refine ⟨front.length, hdefault, by omega, ?_⟩
      rw [hmem, hk, List.drop_left]
      show (trim body ++ 0 :: junk).take _ = _
      rw [← List.singleton_append, ← List.append_assoc]
      exact List.take_left' (by rw [List.length_append, List.length_singleton])
    case isFalse hk =>
      rw [if_neg hk] at hdefault
      exact hdefault

/-- A line with a separator: the value is inside the line, and what follows the line stays as it is. -/
theorem parseLine_separator (szPath : Option (List UInt8)) {pre line v rest : List UInt8}
    (hmem : s.mem = pre ++ (line ++ 0 :: rest)) (hzero : 0 ∉ line)
    (hv : afterSeparator line = some v) (hlimit : pre.length + line.length < limit) :
    ∃ s' front, parseLine limit szPath s pre.length = .ok s' ∧ s'.mem = front ++ rest ∧ pre <+: front ∧
      front.length = pre.length + line.length + 1 ∧
      (s'.entries, s'.currentEntry) =
        Token.apply szPath (s.entries, s.currentEntry) ⟨keywordOf (paramOf line), trim v⟩ ∧
      SetsDefault s s' (keywordOf (paramOf line)) front.length (trim v) := by
  obtain ⟨c, hline, hc⟩ := afterSeparator_some hv
  have hword : ∀ b ∈ paramOf line, b ≠ 0 ∧ b ∉ [0x20, 0x09] := fun b hb =>
    ⟨fun h => hzero (h ▸ (paramOf_spec hb).1), (paramOf_spec hb).2⟩
  generalize paramOf line = param at hline hword
  subst hline
  have hparam : 0 ∉ param := fun h => (hword 0 h).1 rfl
  rw [List.mem_append, List.mem_cons, not_or, not_or] at hzero
  rw [List.length_append, List.length_cons] at hlimit
  have htrim : (trimEnd v).length ≤ v.length := (List.rdropWhile_prefix isspace v).length_le
  have hsep : strsep limit s.mem pre.length [0x20, 0x09] =
      .ok (pre ++ (param ++ 0 :: (v ++ 0 :: rest)), some (pre.length + param.length + 1)) := by
    rw [hmem, strsep, strpbrk, List.drop_left, List.append_assoc, List.cons_append,
      strpbrkIn_some hword (Ne.symm hzero.2.1) hc, ok_bind]
    dsimp only
    rw [← List.append_assoc, ← List.length_append, storeByte_append (by rw [List.length_append]; omega), ok_bind,
      List.append_assoc]
  obtain ⟨s', hrun, hmem', hentries, hdefault⟩ := parseLine_eq szPath hsep hparam hzero.2.2 (by omega)
  have hcut : (v ++ 0 :: rest).drop ((trimEnd v).length + 1) = (v ++ [0]).drop ((trimEnd v).length + 1) ++ rest := by
    rw [← List.drop_append_of_le_length (by rw [List.length_append, List.length_singleton]; omega), List.append_assoc,
      List.singleton_append]
  have hfront : (pre ++ (param ++ 0 :: (replaced (keywordOf param) (trimEnd v) ++
      (0 : UInt8) :: (v ++ [0]).drop ((trimEnd v).length + 1)))).length = pre.length + (param ++ c :: v).length + 1 := by
    simp only [List.length_append, List.length_cons, List.length_drop, replaced_trimEnd_length, List.length_nil]
    omega
  refine ⟨s', _, hrun, ?_, List.prefix_append _ _, hfront, hentries, ?_⟩
  · rw [hmem', hcut]
    simp only [List.append_assoc, List.cons_append]
  · have hend : pre.length + (param ++ c :: v).length + 1 = pre.length + param.length + 1 + v.length + 1 := by
      rw [List.length_append, List.length_cons]
      omega
    rw [hfront, hend]
    exact hdefault

/-- A line without a separator: the value is what follows the line, up to the next NUL. -/
theorem strsep_none (limit : Nat) {pre line rest : List UInt8} (hmem : s.mem = pre ++ (line ++ 0 :: rest)) (hzero : 0 ∉ line)
    (hnone : afterSeparator line = none) :
    strsep limit s.mem pre.length [0x20, 0x09] = .ok (pre ++ (line ++ 0 :: rest), none) := by
  have hword : ∀ b ∈ line, b ≠ 0 ∧ b ∉ [0x20, 0x09] := fun b hb =>
    ⟨fun h => hzero (h ▸ hb), (paramOf_spec (show b ∈ paramOf line by rw [afterSeparator_none hnone]; exact hb)).2⟩
  rw [hmem, strsep, strpbrk, List.drop_left, strpbrkIn_none hword, ok_bind]

/-- Such a line fails as the search for the value fails. -/
theorem parseLine_error {pre line rest : List UInt8} {e : Fault} (hmem : s.mem = pre ++ (line ++ 0 :: rest))
    (hzero : 0 ∉ line) (hnone : afterSeparator line = none)
    (htake : takeParamdata limit (pre ++ (line ++ 0 :: rest)) (pre.length + line.length + 1) = .error e) :
    parseLine limit szPath s pre.length = .error e := by
  rw [parseLine, strsep_none limit hmem hzero hnone, ok_bind]
  dsimp only
  rw [strlen, List.drop_left, strlenIn_eq hzero, ok_bind, htake, error_bind]

end Line

/-! ### The pass over the text -/

/-- The tokens of the lines from position `pos` on: `body` goes up to the next NUL, `tail` is what can be read behind
    it. A line without a separator takes the rest of the text as its value, and the text loses the white space at
    its end; if it is the last line, the value is taken from behind the NUL. `f` is what a line with such a value
    does to it in the text. -/
def scan (f : Option Keyword → List UInt8 → List UInt8) (limit : Nat) :
    Nat → Nat → List UInt8 → List UInt8 → Except Fault (List Token)
  | 0, _, _, _ => .error .rounds
  | rounds + 1, pos, body, tail =>
      let line := body.takeWhile (· ≠ 0x0a)
      let k := keywordOf (paramOf line)
      match body.dropWhile (· ≠ 0x0a), afterSeparator line with
      | [], some v => .ok [⟨k, trim v⟩]
      | [], none =>
          if 0 ∈ tail then
            if pos + body.length + 1 + (trimEnd (cString tail)).length < limit then
              .ok [⟨k, trim (cString tail)⟩]
            else .error .store
          else .error .load
      | _ :: rest, some v => (scan f limit rounds (pos + line.length + 1) rest tail).map (⟨k, trim v⟩ :: ·)
      | _ :: rest, none =>
          (scan f limit rounds (pos + line.length + 1) (f k (trimEnd rest))
            ((rest ++ 0 :: tail).drop ((trimEnd rest).length + 1))).map (⟨k, trim rest⟩ :: ·)

theorem cString_append {l : List UInt8} (rest : List UInt8) (h : 0 ∉ l) : cString (l ++ 0 :: rest) = l := by
  have hall : ∀ b ∈ l, decide (b ≠ 0) = true := fun b hb => decide_eq_true fun hb' => h (hb' ▸ hb)
  rw [cString, List.takeWhile_append_of_pos hall]
  exact List.append_nil l

/-- The last line. -/
theorem scan_last {f : Option Keyword → List UInt8 → List UInt8} {limit rounds pos : Nat} {body tail : List UInt8}
    (h : 0x0a ∉ body) :
    scan f limit (rounds + 1) pos body tail =
      match afterSeparator body with
      | some v => .ok [⟨keywordOf (paramOf body), trim v⟩]
      | none =>
          if 0 ∈ tail then
            if pos + body.length + 1 + (trimEnd (cString tail)).length < limit then
              .ok [⟨keywordOf (paramOf body), trim (cString tail)⟩]
            else .error .store
          else .error .load := by
  have hall : ∀ b ∈ body, decide (b ≠ 0x0a) = true := fun b hb => decide_eq_true fun hb' => h (hb' ▸ hb)
  rw [scan, List.takeWhile_eq_self_iff.mpr hall, List.dropWhile_eq_nil_iff.mpr hall]
  cases afterSeparator body with
  | none => rfl
  | some v => rfl

/-- A line with others behind it. -/
theorem scan_line {f : Option Keyword → List UInt8 → List UInt8} {limit rounds pos : Nat} {line rest tail : List UInt8}
    (h : 0x0a ∉ line) :
    scan f limit (rounds + 1) pos (line ++ 0x0a :: rest) tail =
      match afterSeparator line with
      | some v =>
          (scan f limit rounds (pos + line.length + 1) rest tail).map (⟨keywordOf (paramOf line), trim v⟩ :: ·)
      | none =>
          (scan f limit rounds (pos + line.length + 1) (f (keywordOf (paramOf line)) (trimEnd rest))
            ((rest ++ 0 :: tail).drop ((trimEnd rest).length + 1))).map (⟨keywordOf (paramOf line), trim rest⟩ :: ·) := by
  have hall : ∀ b ∈ line, decide (b ≠ 0x0a) = true := fun b hb => decide_eq_true fun hb' => h (hb' ▸ hb)
  rw [scan, List.takeWhile_append_of_pos hall, List.dropWhile_append_of_pos hall]
  simp only [ne_eq, not_true_eq_false, decide_false, List.takeWhile_cons, List.dropWhile_cons, Bool.false_eq_true,
    if_false, List.append_nil]
  cases afterSeparator line with
  | none => rfl
  | some v => rfl

/-- What is found in a line, and whether the string of its value stays as it is found: in a line with a separator and in
    the last line, and when it is empty. -/
structure Found where
  token : Token
  stays : Bool
deriving DecidableEq, Repr

/-- The pass over the text, with what is found in each line. -/
def scanFound (f : Option Keyword → List UInt8 → List UInt8) (limit : Nat) :
    Nat → Nat → List UInt8 → List UInt8 → Except Fault (List Found)
  | 0, _, _, _ => .error .rounds
  | rounds + 1, pos, body, tail =>
      let line := body.takeWhile (· ≠ 0x0a)
      let k := keywordOf (paramOf line)
      match body.dropWhile (· ≠ 0x0a), afterSeparator line with
      | [], some v => .ok [⟨⟨k, trim v⟩, true⟩]
      | [], none =>
          if 0 ∈ tail then
            if pos + body.length + 1 + (trimEnd (cString tail)).length < limit then
              .ok [⟨⟨k, trim (cString tail)⟩, true⟩]
            else .error .store
          else .error .load
      | _ :: rest, some v =>
          (scanFound f limit rounds (pos + line.length + 1) rest tail).map (⟨⟨k, trim v⟩, true⟩ :: ·)
      | _ :: rest, none =>
          (scanFound f limit rounds (pos + line.length + 1) (f k (trimEnd rest))
            ((rest ++ 0 :: tail).drop ((trimEnd rest).length + 1))).map (⟨⟨k, trim rest⟩, (trim rest).isEmpty⟩ :: ·)

/-- A text is one line, or a line and a rest. -/
theorem line_cases (body : List UInt8) : 0x0a ∉ body ∨ ∃ line rest, body = line ++ 0x0a :: rest ∧ 0x0a ∉ line := by
  by_cases h : (0x0a : UInt8) ∈ body
  · obtain ⟨line, rest, hbody, hline⟩ := List.eq_append_cons_of_mem h
    exact Or.inr ⟨line, rest, hbody, hline⟩
  · exact Or.inl h

/-- The last line. -/
theorem found_last {f : Option Keyword → List UInt8 → List UInt8} {limit rounds pos : Nat} {body tail : List UInt8}
    (h : 0x0a ∉ body) :
    scanFound f limit (rounds + 1) pos body tail =
      match afterSeparator body with
      | some v => .ok [⟨⟨keywordOf (paramOf body), trim v⟩, true⟩]
      | none =>
          if 0 ∈ tail then
            if pos + body.length + 1 + (trimEnd (cString tail)).length < limit then
              .ok [⟨⟨keywordOf (paramOf body), trim (cString tail)⟩, true⟩]
            else .error .store
          else .error .load := by
  have hall : ∀ b ∈ body, decide (b ≠ 0x0a) = true := fun b hb => decide_eq_true fun hb' => h (hb' ▸ hb)
  rw [scanFound, List.takeWhile_eq_self_iff.mpr hall, List.dropWhile_eq_nil_iff.mpr hall]
  cases afterSeparator body with
  | none => rfl
  | some v => rfl

/-- A line with others behind it. -/
theorem found_line {f : Option Keyword → List UInt8 → List UInt8} {limit rounds pos : Nat} {line rest tail : List UInt8}
    (h : 0x0a ∉ line) :
    scanFound f limit (rounds + 1) pos (line ++ 0x0a :: rest) tail =
      match afterSeparator line with
      | some v =>
          (scanFound f limit rounds (pos + line.length + 1) rest tail).map
            (⟨⟨keywordOf (paramOf line), trim v⟩, true⟩ :: ·)
      | none =>
          (scanFound f limit rounds (pos + line.length + 1) (f (keywordOf (paramOf line)) (trimEnd rest))
            ((rest ++ 0 :: tail).drop ((trimEnd rest).length + 1))).map
              (⟨⟨keywordOf (paramOf line), trim rest⟩, (trim rest).isEmpty⟩ :: ·) := by
  have hall : ∀ b ∈ line, decide (b ≠ 0x0a) = true := fun b hb => decide_eq_true fun hb' => h (hb' ▸ hb)
  rw [scanFound, List.takeWhile_append_of_pos hall, List.dropWhile_append_of_pos hall]
  simp only [ne_eq, not_true_eq_false, decide_false, List.takeWhile_cons, List.dropWhile_cons, Bool.false_eq_true,
    if_false, List.append_nil]
  cases afterSeparator line with
  | none => rfl
  | some v => rfl

theorem map_token_cons (founds : Except Fault (List Found)) (found : Found) :
    (founds.map (found :: ·)).map (List.map Found.token) = (founds.map (List.map Found.token)).map (found.token :: ·) := by
  cases founds with
  | error e => rfl
  | ok founds => rfl

/-- The tokens of the pass. -/
theorem map_token_scanFound (f : Option Keyword → List UInt8 → List UInt8) (limit rounds pos : Nat)
    (body tail : List UInt8) :
    (scanFound f limit rounds pos body tail).map (List.map Found.token) = scan f limit rounds pos body tail := by
  induction rounds generalizing pos body tail with
  | zero => rfl
  | succ rounds ih =>
      rcases line_cases body with hlast | ⟨line, rest, rfl, hline⟩
      · rw [found_last hlast, scan_last hlast]
        cases afterSeparator body with
        | some v => rfl
        | none =>
            dsimp only
            split
            · split
              · rfl
              · rfl
            · rfl
      · rw [found_line hline, scan_line hline]
        cases afterSeparator line with
        | some v => exact (map_token_cons _ _).trans (congrArg _ (ih _ _ _))
        | none => exact (map_token_cons _ _).trans (congrArg _ (ih _ _ _))

/-! ### What the stores keep

A store ends a string where white space was or another string ended, or turns a slash. So every NUL of the text stays
one, and a byte that is neither a NUL nor white space does not become one. -/

/-- What may become of a byte. -/
def KeepsByte (b b' : UInt8) : Prop := (b = 0 → b' = 0) ∧ (b ≠ 0 ∧ isspace b = false → b' ≠ 0 ∧ isspace b' = false)

/-- What may become of a text. -/
def Keeps (mem mem' : List UInt8) : Prop := ∀ (i : Nat) b, mem[i]? = some b → ∃ b', mem'[i]? = some b' ∧ KeepsByte b b'

theorem KeepsByte.refl (b : UInt8) : KeepsByte b b := ⟨id, id⟩

theorem Keeps.refl (mem : List UInt8) : Keeps mem mem := fun _ b h => ⟨b, h, KeepsByte.refl b⟩

theorem Keeps.trans {a b c : List UInt8} (first : Keeps a b) (second : Keeps b c) : Keeps a c := by
  intro i x hx
  obtain ⟨y, hy, hxy⟩ := first i x hx
  obtain ⟨z, hz, hyz⟩ := second i y hy
  exact ⟨z, hz, fun h => hyz.1 (hxy.1 h), fun h => hyz.2 (hxy.2 h)⟩

section Stores

variable {limit : Nat} {szPath : Option (List UInt8)} {s s' : Parser} {mem mem' : List UInt8} {p : Nat}

theorem bind_eq_ok {α β : Type} {x : Except Fault α} {f : α → Except Fault β} {b : β} (h : (x >>= f) = .ok b) :
    ∃ a, x = .ok a ∧ f a = .ok b := by
  cases x with
  | error e => cases h
  | ok a => exact ⟨a, rfl, h⟩

/-- A NUL over white space or over a NUL. -/
theorem storeByte_keeps (hbyte : ∀ b, mem[p]? = some b → b = 0 ∨ isspace b = true)
    (h : storeByte limit mem p 0 = .ok mem') : Keeps mem mem' := by
  unfold storeByte at h
  split at h
  case isTrue hp =>
    cases h
    intro i b hb
    by_cases hip : p = i
    · rw [← hip] at hb ⊢
      refine ⟨0, List.getElem?_set_self hp.2, fun _ => rfl, fun hink => ?_⟩
      rcases hbyte b hb with hzero | hspace
      · exact absurd hzero hink.1
      · rw [hink.2] at hspace
        cases hspace
    · exact ⟨b, by rw [List.getElem?_set_ne hip, hb], KeepsByte.refl b⟩
  case isFalse _ =>
    cases h

theorem strpbrkIn_byte {ct l : List UInt8} {e : Nat} (h : strpbrkIn ct l p = .ok (some e)) :
    ∃ i b, e = p + i ∧ l[i]? = some b ∧ b ∈ ct := by
  induction l generalizing p with
  | nil =>
      cases h
  | cons c l ih =>
      rw [strpbrkIn] at h
      split at h
      · cases h
      · split at h
        case isTrue hc =>
          cases h
          exact ⟨0, c, rfl, rfl, hc⟩
        case isFalse _ =>
          obtain ⟨i, b, he, hb, hct⟩ := ih h
          exact ⟨i + 1, b, by omega, by rw [List.getElem?_cons_succ, hb], hct⟩

theorem strsep_keeps {ct : List UInt8} (hct : ∀ b ∈ ct, isspace b = true) {next : Option Nat}
    (h : strsep limit mem p ct = .ok (mem', next)) : Keeps mem mem' := by
  obtain ⟨found, hfound, h⟩ := bind_eq_ok h
  cases found with
  | none =>
      cases h
      exact Keeps.refl mem
  | some e =>
      obtain ⟨stored, hstore, h⟩ := bind_eq_ok h
      cases h
      obtain ⟨i, b, rfl, hb, hmem⟩ := strpbrkIn_byte hfound
      refine storeByte_keeps (fun c hc => Or.inr ?_) hstore
      rw [List.getElem?_drop, hc, Option.some_inj] at hb
      exact hct c (hb ▸ hmem)

theorem skipSpacesIn_le {l : List UInt8} {q : Nat} (h : skipSpacesIn l p = .ok q) : p ≤ q := by
  induction l generalizing p with
  | nil =>
      cases h
  | cons b l ih =>
      rw [skipSpacesIn] at h
      split at h
      · exact Nat.le_of_succ_le (ih h)
      · cases h
        exact Nat.le_refl _

theorem strlenIn_byte {l : List UInt8} {n : Nat} (h : strlenIn l = .ok n) : l[n]? = some 0 := by
  induction l generalizing n with
  | nil =>
      cases h
  | cons b l ih =>
      rw [strlenIn] at h
      split at h
      case isTrue hb =>
        cases h
        rw [List.getElem?_cons_zero, hb]
      case isFalse _ =>
        cases hrest : strlenIn l with
        | error e =>
            rw [hrest] at h
            cases h
        | ok m =>
            rw [hrest] at h
            cases h
            rw [List.getElem?_cons_succ, ih hrest]

/-- Going back, all bytes that were passed are white space. -/
theorem stripTrailing_byte {paramdata start p : Nat} (h : stripTrailing mem paramdata start = .ok p) :
    p = start ∨ ∃ b, mem[p + 1]? = some b ∧ isspace b = true := by
  induction start with
  | zero =>
      rw [stripTrailing] at h
      split at h
      · cases h
        exact Or.inl rfl
      · obtain ⟨b, -, h⟩ := bind_eq_ok h
        split at h
        · cases h
        · cases h
          exact Or.inl rfl
  | succ k ih =>
      rw [stripTrailing] at h
      split at h
      · cases h
        exact Or.inl rfl
      · obtain ⟨b, hload, h⟩ := bind_eq_ok h
        split at h
        case isTrue hspace =>
          rcases ih h with rfl | hpassed
          · refine Or.inr ⟨b, ?_, hspace⟩
            rw [loadByte] at hload
            split at hload
            · cases hload
              assumption
            · cases hload
          · exact Or.inr hpassed
        case isFalse _ =>
          cases h
          exact Or.inl rfl

theorem takeParamdata_keeps {paramdata : Nat} (h : takeParamdata limit mem (p + 1) = .ok (paramdata, mem')) :
    Keeps mem mem' := by
  obtain ⟨start, hskip, h⟩ := bind_eq_ok h
  obtain ⟨n, hlen, h⟩ := bind_eq_ok h
  obtain ⟨e, hstrip, h⟩ := bind_eq_ok h
  obtain ⟨stored, hstore, h⟩ := bind_eq_ok h
  cases h
  refine storeByte_keeps (fun b hb => ?_) hstore
  have hstart : p + 1 ≤ paramdata := skipSpacesIn_le hskip
  rcases stripTrailing_byte hstrip with rfl | ⟨c, hc, hspace⟩
  · have hend := strlenIn_byte hlen
    rw [List.getElem?_drop, show paramdata + n = paramdata + n - 1 + 1 by omega, hb, Option.some_inj] at hend
    exact Or.inl hend
  · rw [hb, Option.some_inj] at hc
    exact Or.inr (hc ▸ hspace)

theorem chrreplaceIn_keeps {search ch : UInt8} (hbyte : KeepsByte search ch) {l l' : List UInt8}
    (h : chrreplaceIn limit search ch l p = .ok l') : Keeps l l' := by
  induction l generalizing p l' with
  | nil =>
      cases h
  | cons b l ih =>
      rw [chrreplaceIn] at h
      split at h
      · cases h
        exact Keeps.refl _
      · have hcons : ∀ c : UInt8, KeepsByte b c → (chrreplaceIn limit search ch l (p + 1)).map (c :: ·) = .ok l' →
            Keeps (b :: l) l' := by
          intro c hc hmap
          cases hrest : chrreplaceIn limit search ch l (p + 1) with
          | error e =>
              rw [hrest] at hmap
              cases hmap
          | ok rest =>
              rw [hrest] at hmap
              cases hmap
              intro i x hx
              cases i with
              | zero =>
                  rw [List.getElem?_cons_zero, Option.some_inj] at hx
                  exact ⟨c, List.getElem?_cons_zero, hx ▸ hc⟩
              | succ i =>
                  rw [List.getElem?_cons_succ] at hx ⊢
                  exact ih hrest i x hx
        split at h
        case isTrue hb =>
          split at h
          · exact hcons ch (hb ▸ hbyte) h
          · cases h
        case isFalse _ =>
          exact hcons b (KeepsByte.refl b) h

theorem chrreplace_keeps {search ch : UInt8} (hbyte : KeepsByte search ch)
    (h : chrreplace limit mem p search ch = .ok mem') : Keeps mem mem' := by
  rw [chrreplace] at h
  cases hrest : chrreplaceIn limit search ch (mem.drop p) p with
  | error e =>
      rw [hrest] at h
      cases h
  | ok rest =>
      rw [hrest] at h
      cases h
      have hp : p ≤ mem.length := by
        by_contra hlong
        rw [List.drop_eq_nil_of_le (by omega)] at hrest
        cases hrest
      have hkeep := chrreplaceIn_keeps hbyte hrest
      intro i b hb
      have htake : (mem.take p).length = p := List.length_take_of_le hp
      by_cases hip : i < p
      · rw [List.getElem?_append_left (by omega), List.getElem?_take_of_lt hip]
        exact ⟨b, hb, KeepsByte.refl b⟩
      · rw [List.getElem?_append_right (by omega), htake]
        refine hkeep _ b ?_
        rw [List.getElem?_drop, show p + (i - p) = i by omega, hb]

theorem applyParam_keeps {param : List UInt8} {paramdata : Nat}
    (h : applyParam limit szPath s param paramdata = .ok s') : Keeps s.mem s'.mem := by
  have hslash : KeepsByte 0x5c 0x2f := by
    unfold KeepsByte
    decide
  unfold applyParam at h
  split at h
  · obtain ⟨value, -, h⟩ := bind_eq_ok h
    split at h
    · cases h
      exact Keeps.refl _
    · cases h
      exact Keeps.refl _
  split at h
  · obtain ⟨mem, hreplace, h⟩ := bind_eq_ok h
    obtain ⟨value, -, h⟩ := bind_eq_ok h
    cases h
    exact chrreplace_keeps hslash hreplace
  split at h
  · obtain ⟨mem, hreplace, h⟩ := bind_eq_ok h
    obtain ⟨value, -, h⟩ := bind_eq_ok h
    split at h
    · cases h
      exact chrreplace_keeps hslash hreplace
    · cases h
      exact chrreplace_keeps hslash hreplace
  split at h
  · obtain ⟨value, -, h⟩ := bind_eq_ok h
    cases h
    exact Keeps.refl _
  split at h
  · cases h
    exact Keeps.refl _
  · cases h
    exact Keeps.refl _

theorem parseLine_keeps {linePtr : Nat} (h : parseLine limit szPath s linePtr = .ok s') : Keeps s.mem s'.mem := by
  obtain ⟨⟨cut, next⟩, hsep, h⟩ := bind_eq_ok h
  obtain ⟨n, -, h⟩ := bind_eq_ok h
  obtain ⟨⟨paramdata, mem⟩, htake, h⟩ := bind_eq_ok h
  obtain ⟨param, -, h⟩ := bind_eq_ok h
  have hspace : ∀ b ∈ [(0x20 : UInt8), 0x09], isspace b = true := by decide +kernel
  exact ((strsep_keeps hspace hsep).trans (takeParamdata_keeps htake)).trans (applyParam_keeps h)

theorem parseLoop_keeps (rounds : Nat) {currentPos : Option Nat}
    (h : parseLoop limit szPath rounds currentPos s = .ok s') : Keeps s.mem s'.mem := by
  induction rounds generalizing currentPos s with
  | zero =>
      cases currentPos with
      | none =>
          cases h
          exact Keeps.refl _
      | some p =>
          cases h
  | succ rounds ih =>
      cases currentPos with
      | none =>
          cases h
          exact Keeps.refl _
      | some linePtr =>
          obtain ⟨⟨mem, next⟩, hsep, h⟩ := bind_eq_ok h
          obtain ⟨line, hline, h⟩ := bind_eq_ok h
          have hspace : ∀ b ∈ [(0x0a : UInt8)], isspace b = true := by decide +kernel
          exact (strsep_keeps hspace hsep).trans ((parseLine_keeps hline).trans (ih h))

end Stores

/-! ### The default title -/

/-- The last default line. -/
def lastDefault (founds : List Found) : Option Found :=
  (founds.filter fun found => found.token.keyword = some .default).getLast?

/-- The last member with a property, of a list with one more member. -/
theorem getLast?_filter_cons {α : Type} (p : α → Bool) (a : α) (l : List α) :
    ((a :: l).filter p).getLast? = (l.filter p).getLast?.or (if p a = true then some a else none) := by
  rw [List.filter_cons]
  split
  · rw [List.getLast?_cons]
    cases (l.filter p).getLast? with
    | none => rfl
    | some last => rfl
  · rw [Option.or_none]

theorem lastDefault_cons (found : Found) (founds : List Found) :
    lastDefault (found :: founds) =
      (lastDefault founds).or (if found.token.keyword = some .default then some found else none) := by
  rw [lastDefault, getLast?_filter_cons]
  simp only [decide_eq_true_eq]
  rfl

/-- What lines with these values do to `defaultTitle`: the string there is the value of the last default line if that
    stays, and in any case it is empty exactly when the value is. -/
def GivesDefault (s s' : Parser) (founds : List Found) : Prop :=
  match lastDefault founds with
  | none => s'.defaultTitle = s.defaultTitle
  | some found => ∃ p string, s'.defaultTitle = some p ∧ stringAt s'.mem p = .ok string ∧
      (found.stays = true → string = found.token.value) ∧ (string = [] ↔ found.token.value = [])

theorem strlenIn_zero_notMem {l : List UInt8} {n : Nat} (h : strlenIn l = .ok n) : 0 ∉ l.take n := by
  induction l generalizing n with
  | nil =>
      cases h
  | cons b l ih =>
      rw [strlenIn] at h
      split at h
      case isTrue _ =>
        cases h
        exact List.not_mem_nil
      case isFalse hb =>
        cases hrest : strlenIn l with
        | error e =>
            rw [hrest] at h
            cases h
        | ok m =>
            rw [hrest] at h
            cases h
            rw [List.take_succ_cons, List.mem_cons, not_or]
            exact ⟨Ne.symm hb, ih hrest⟩

theorem stringAt_zero_notMem {mem string : List UInt8} {p : Nat} (h : stringAt mem p = .ok string) : 0 ∉ string := by
  rw [stringAt] at h
  cases hlen : strlen mem p with
  | error e =>
      rw [hlen] at h
      cases h
  | ok n =>
      rw [hlen] at h
      cases h
      exact strlenIn_zero_notMem hlen

/-- A value starts with a byte that is no white space. -/
theorem trim_head {text value : List UInt8} {b : UInt8} (h : trim text = b :: value) : isspace b = false := by
  have hpre : b :: value <+: text.dropWhile isspace := h ▸ List.rdropWhile_prefix isspace _
  obtain ⟨rest, hrest⟩ := hpre
  have hne : text.dropWhile isspace ≠ [] := by
    rw [← hrest]
    exact List.cons_ne_nil _ _
  have hhead := List.head_dropWhile_not isspace hne
  simpa [← hrest] using hhead

/-- The string of a value after other stores. -/
theorem Parser.DefaultAt.found {s s' : Parser} {n : Nat} {text : List UInt8} {stays : Bool}
    (h : s.DefaultAt n (trim text)) (hzero : 0 ∉ text) (hkeeps : Keeps s.mem s'.mem)
    (hdefault : s'.defaultTitle = s.defaultTitle)
    (hstays : stays = true → trim text = [] ∨ s'.mem.take n = s.mem.take n) :
    ∃ p string, s'.defaultTitle = some p ∧ stringAt s'.mem p = .ok string ∧
      (stays = true → string = trim text) ∧ (string = [] ↔ trim text = []) := by
  have hvalue := notMem_trim hzero
  have hat : ∀ {mem : List UInt8} {p : Nat}, (mem.drop p).take ((trim text).length + 1) = trim text ++ [0] →
      ∃ junk, mem.drop p = trim text ++ 0 :: junk := by
    intro mem p htake
    have hparts := List.take_append_drop ((trim text).length + 1) (mem.drop p)
    rw [htake, List.append_assoc] at hparts
    exact ⟨_, hparts.symm⟩
  obtain ⟨p, hp, hlt, hstring⟩ := id h
  obtain ⟨junk, hdrop⟩ := hat hstring
  by_cases hsame : s'.mem.take n = s.mem.take n
  · obtain ⟨q, hq, -, hstring'⟩ := h.keeps hsame hdefault
    obtain ⟨junk', hdrop'⟩ := hat hstring'
    refine ⟨q, trim text, hq, ?_, fun _ => rfl, Iff.rfl⟩
    rw [stringAt, strlen, hdrop', strlenIn_eq hvalue]
    exact congrArg Except.ok (List.take_left ..)
  · have hend : s.mem[p + (trim text).length]? = some 0 := by
      rw [← List.getElem?_drop, hdrop, List.getElem?_append_right (Nat.le_refl _), Nat.sub_self,
        List.getElem?_cons_zero]
    obtain ⟨c, hc, hnul⟩ := hkeeps _ _ hend
    have hin : 0 ∈ s'.mem.drop p := by
      refine List.mem_iff_getElem?.mpr ⟨(trim text).length, ?_⟩
      rw [List.getElem?_drop, hc, hnul.1 rfl]
    obtain ⟨string, rest, hrest, hstringZero⟩ := List.eq_append_cons_of_mem hin
    have hempty : string = [] ↔ trim text = [] := by
      cases htext : trim text with
      | nil =>
          rw [htext] at hend
          obtain ⟨d, hd, hdzero⟩ := hkeeps _ _ hend
          rw [List.length_nil, Nat.add_zero, ← Nat.add_zero p, ← List.getElem?_drop, hrest, hdzero.1 rfl] at hd
          refine iff_of_true ?_ rfl
          cases string with
          | nil => rfl
          | cons b string =>
              rw [List.cons_append, List.getElem?_cons_zero, Option.some_inj] at hd
              exact absurd (hd ▸ List.mem_cons_self) hstringZero
      | cons b value =>
          have hb : s.mem[p + 0]? = some b := by
            rw [← List.getElem?_drop, hdrop, htext]
            rfl
          have hink : b ≠ 0 ∧ isspace b = false :=
            ⟨fun h0 => hvalue (by rw [htext, h0]; exact List.mem_cons_self), trim_head htext⟩
          obtain ⟨d, hd, hdink⟩ := hkeeps _ _ hb
          refine iff_of_false (fun hnil => ?_) (List.cons_ne_nil _ _)
          rw [← List.getElem?_drop, hrest, hnil, List.nil_append, List.getElem?_cons_zero, Option.some_inj] at hd
          exact (hdink.2 hink).1 hd.symm
    refine ⟨p, string, hdefault.trans hp, ?_, fun h => ?_, hempty⟩
    · rw [stringAt, strlen, hrest, strlenIn_eq hstringZero]
      exact congrArg Except.ok (List.take_left ..)
    · have hnil : trim text = [] := (hstays h).resolve_right hsame
      rw [hnil]
      exact hempty.mpr hnil

/-! ### The loop -/

/-- What the loop gives for what is found in the lines, with the text in front of position `n` left alone, or the failure
    of the pass. -/
def LoopGives (szPath : Option (List UInt8)) (n : Nat) (s : Parser) (run : Except Fault Parser) :
    Except Fault (List Found) → Prop
  | .error e => run = .error e
  | .ok founds => ∃ s', run = .ok s' ∧ s'.mem.take n = s.mem.take n ∧ GivesDefault s s' founds ∧
      (s'.entries, s'.currentEntry) =
        (founds.map Found.token).foldl (Token.apply szPath) (s.entries, s.currentEntry)

section Loop

variable {limit : Nat} {szPath : Option (List UInt8)} {s : Parser}

/-- A line in front of the others. -/
theorem LoopGives.cons {s₁ : Parser} {n n₁ m : Nat} {run : Except Fault Parser} {k : Option Keyword}
    {text : List UInt8} {stays : Bool} {rest : Except Fault (List Found)}
    (first : (s₁.entries, s₁.currentEntry) = Token.apply szPath (s.entries, s.currentEntry) ⟨k, trim text⟩)
    (hzero : 0 ∉ text) (hset : SetsDefault s s₁ k m (trim text)) (hstays : stays = true → trim text = [] ∨ m ≤ n₁)
    (hn : n ≤ n₁) (hmem : s₁.mem.take n = s.mem.take n) (hkeeps : ∀ s', run = .ok s' → Keeps s₁.mem s'.mem)
    (h : LoopGives szPath n₁ s₁ run rest) : LoopGives szPath n s run (rest.map (⟨⟨k, trim text⟩, stays⟩ :: ·)) := by
  cases rest with
  | error e =>
      exact h
  | ok founds =>
      obtain ⟨s', hrun, htake, hgives, hfold⟩ := h
      have hless : ∀ {i : Nat}, i ≤ n₁ → s'.mem.take i = s₁.mem.take i := by
        intro i hi
        rw [← Nat.min_eq_left hi, ← List.take_take, ← List.take_take, htake]
      refine ⟨s', hrun, (hless hn).trans hmem, ?_, ?_⟩
      · rw [GivesDefault, lastDefault_cons]
        rw [GivesDefault] at hgives
        cases hlast : lastDefault founds with
        | some found =>
            rw [hlast] at hgives
            exact hgives
        | none =>
            rw [hlast] at hgives
            rw [Option.none_or]
            rw [SetsDefault] at hset
            by_cases hkey : k = some .default
            · rw [if_pos hkey] at hset ⊢
              exact hset.found hzero (hkeeps s' hrun) hgives fun hs => (hstays hs).imp_right hless
            · rw [if_neg hkey] at hset ⊢
              exact hgives.trans hset
      · rw [hfold, List.map_cons, List.foldl_cons, first]

/-- The last line. -/
theorem LoopGives.last {s₁ : Parser} {n m : Nat} {run : Except Fault Parser} {k : Option Keyword} {text : List UInt8}
    {stays : Bool} (hrun : run = .ok s₁)
    (first : (s₁.entries, s₁.currentEntry) = Token.apply szPath (s.entries, s.currentEntry) ⟨k, trim text⟩)
    (hzero : 0 ∉ text) (hset : SetsDefault s s₁ k m (trim text)) (hmem : s₁.mem.take n = s.mem.take n) :
    LoopGives szPath n s run (.ok [⟨⟨k, trim text⟩, stays⟩]) := by
  have hnothing : LoopGives szPath (max n m) s₁ run (.ok []) := ⟨s₁, hrun, rfl, rfl, rfl⟩
  refine LoopGives.cons first hzero hset (fun _ => Or.inr (Nat.le_max_right n m)) (Nat.le_max_left n m) hmem ?_ hnothing
  intro s' hs'
  rw [hrun] at hs'
  cases hs'
  exact Keeps.refl _

theorem take_prefix {pre front rest rest' : List UInt8} (h : pre <+: front) :
    (front ++ rest).take pre.length = (pre ++ rest').take pre.length := by
  obtain ⟨more, rfl⟩ := h
  rw [List.append_assoc, List.take_left, List.take_left]

theorem zero_notMem_separator {line v : List UInt8} (hzero : 0 ∉ line) (h : afterSeparator line = some v) : 0 ∉ v := by
  obtain ⟨c, hline, -⟩ := afterSeparator_some h
  intro hmem
  exact hzero (hline ▸ List.mem_append_right _ (List.mem_cons_of_mem _ hmem))

/-- The last line ends the loop. -/
theorem parseLine_last (szPath : Option (List UInt8)) {pre body tail : List UInt8} (rounds : Nat)
    (hmem : s.mem = pre ++ (body ++ 0 :: tail)) (hzero : 0 ∉ body) (hline : 0x0a ∉ body)
    (hlimit : pre.length + body.length < limit) :
    LoopGives szPath pre.length s (parseLine limit szPath s pre.length)
      (scanFound replaced limit (rounds + 1) pre.length body tail) := by
  have hlength : (pre ++ body).length = pre.length + body.length := List.length_append
  rw [found_last hline]
  cases hsep : afterSeparator body with
  | some v =>
      obtain ⟨s', front, hrun, hmem', hfront, -, hentries, hset⟩ := parseLine_separator szPath hmem hzero hsep hlimit
      refine LoopGives.last hrun hentries (zero_notMem_separator hzero hsep) hset ?_
      rw [hmem', hmem]
      exact take_prefix hfront
  | none =>
      by_cases htail : 0 ∈ tail
      · obtain ⟨l, rest, rfl, hl⟩ := List.eq_append_cons_of_mem htail
        dsimp only
        rw [if_pos htail, cString_append rest hl]
        split
        case isTrue hstore =>
          obtain ⟨s', hrun, hmem', hentries, hset⟩ :=
            parseLine_eq szPath (strsep_none limit hmem hzero hsep) hzero hl hstore
          rw [afterSeparator_none hsep]
          refine LoopGives.last hrun hentries hl hset ?_
          rw [hmem', hmem, List.take_left, List.take_left]
        case isFalse hstore =>
          refine parseLine_error hmem hzero hsep ?_
          have htake := takeParamdata_eq limit (pre ++ body) rest hl
          rw [hlength, if_neg hstore, List.append_assoc] at htake
          exact htake
      · dsimp only
        rw [if_neg htail]
        refine parseLine_error hmem hzero hsep ?_
        have htake := takeParamdata_load limit (pre ++ body) htail
        rw [hlength, List.append_assoc] at htake
        exact htake

/-- The loop over the lines is the pass over the text. -/
theorem parseLoop_scan (limit : Nat) (szPath : Option (List UInt8)) (rounds : Nat) (pre : List UInt8)
    {body tail : List UInt8} (hmem : s.mem = pre ++ (body ++ 0 :: tail))
    (hzero : 0 ∉ body) (hlimit : pre.length + body.length < limit) :
    LoopGives szPath pre.length s (parseLoop limit szPath rounds (some pre.length) s)
      (scanFound replaced limit rounds pre.length body tail) := by
  induction rounds generalizing pre body tail s with
  | zero =>
      exact rfl
  | succ rounds ih =>
      rw [parseLoop]
      rcases line_cases body with hlast | ⟨line, rest, rfl, hline⟩
      · have hword : ∀ b ∈ body, b ≠ 0 ∧ b ∉ [0x0a] := fun b hb =>
          ⟨fun h => hzero (h ▸ hb), fun h => hlast (List.mem_singleton.mp h ▸ hb)⟩
        have hrest := parseLine_last szPath rounds hmem hzero hlast hlimit
        rw [strsep, strpbrk, hmem, List.drop_left, strpbrkIn_none hword, ok_bind, ok_bind]
        dsimp only
        rw [← hmem]
        cases hrun : parseLine limit szPath s pre.length with
        | error e =>
            rw [hrun] at hrest
            exact hrest
        | ok s' =>
            rw [hrun] at hrest
            rw [ok_bind, parseLoop]
            exact hrest
      · rw [List.mem_append, List.mem_cons, not_or, not_or] at hzero
        rw [List.length_append, List.length_cons] at hlimit
        have hword : ∀ b ∈ line, b ≠ 0 ∧ b ∉ [0x0a] := fun b hb =>
          ⟨fun h => hzero.1 (h ▸ hb), fun h => hline (List.mem_singleton.mp h ▸ hb)⟩
        have htrim : (trimEnd rest).length ≤ rest.length := (List.rdropWhile_prefix isspace rest).length_le
        have hkeeps : ∀ {s₁ : Parser} {next : Option Nat} s', parseLoop limit szPath rounds next s₁ = .ok s' →
            Keeps s₁.mem s'.mem := fun s' h => parseLoop_keeps rounds h
        rw [strsep, strpbrk, hmem, List.drop_left, List.append_assoc, List.cons_append,
          strpbrkIn_some hword (by decide) (List.mem_singleton.mpr rfl), ok_bind]
        dsimp only
        rw [← List.append_assoc, ← List.length_append, storeByte_append (by rw [List.length_append]; omega), ok_bind,
          ok_bind, List.append_assoc, List.length_append]
        dsimp only
        rw [found_line hline]
        have hshort : pre.length + line.length < limit := by omega
        cases hsep : afterSeparator line with
        | some v =>
            obtain ⟨s', front, hrun, hmem', hpre, hfront, hentries, hset⟩ := parseLine_separator szPath
              (s := { s with mem := pre ++ (line ++ 0 :: (rest ++ 0 :: tail)) }) rfl hzero.1 hsep hshort
            rw [hrun, ok_bind, ← hfront]
            refine LoopGives.cons hentries (zero_notMem_separator hzero.1 hsep) hset (fun _ => Or.inr (Nat.le_refl _))
              hpre.length_le ?_ hkeeps (ih front hmem' hzero.2.2 (by omega))
            rw [hmem', hmem]
            exact take_prefix hpre
        | none =>
            have hcut := strsep_none limit
              (s := { s with mem := pre ++ (line ++ 0 :: (rest ++ 0 :: tail)) }) rfl hzero.1 hsep
            obtain ⟨s', hrun, hmem', hentries, hset⟩ := parseLine_eq szPath hcut hzero.1 hzero.2.2 (by omega)
            have hfront : (pre ++ (line ++ [0])).length = pre.length + line.length + 1 := by
              rw [List.length_append, List.length_append, List.length_singleton, Nat.add_assoc]
            have hrest : s'.mem = (pre ++ (line ++ [0])) ++ (replaced (keywordOf line) (trimEnd rest) ++
                0 :: (rest ++ 0 :: tail).drop ((trimEnd rest).length + 1)) := by
              rw [hmem']
              simp only [List.append_assoc, List.cons_append, List.nil_append]
            have hkept : 0 ∉ replaced (keywordOf line) (trimEnd rest) := by
              rcases replaced_cases (keywordOf line) with hkeep | hmap
              · rw [hkeep]
                exact notMem_trimEnd hzero.2.2
              · rw [hmap]
                exact zero_notMem_map_slash (notMem_trimEnd hzero.2.2)
            rw [hrun, ok_bind, ← hfront, afterSeparator_none hsep]
            refine LoopGives.cons hentries hzero.2.2 hset (fun h => Or.inl (List.isEmpty_iff.mp h))
              (by rw [hfront]; omega) ?_ hkeeps
              (ih _ hrest hkept (by rw [hfront, replaced_trimEnd_length]; omega))
            rw [hmem', hmem, List.take_left, List.take_left]

end Loop

/-! ### The whole function -/

/-- The entries that tokens make. -/
def entriesOf (szPath : Option (List UInt8)) (tokens : List Token) : List CONFIGENTRY :=
  let es := tokens.foldl (Token.apply szPath) ([], CONFIGENTRY.zero)
  es.1 ++ [es.2]

/-- The tokens of a buffer with the text `text` and the bytes `after` behind its last byte. -/
def tokensOf (limit : Nat) (text after : List UInt8) : Except Fault (List Token) :=
  let mem := text ++ 0 :: after
  scan replaced limit (text.length + after.length + 2) 0 (cString mem) (mem.drop ((cString mem).length + 1))

/-- The text is cut at its first NUL. -/
theorem cString_split (text after : List UInt8) :
    ∃ tail, text ++ 0 :: after = cString (text ++ 0 :: after) ++ 0 :: tail ∧
      (cString (text ++ 0 :: after)).length ≤ text.length := by
  by_cases hzero : 0 ∈ text
  · obtain ⟨l, r, rfl, hl⟩ := List.eq_append_cons_of_mem hzero
    rw [List.append_assoc, List.cons_append, cString_append _ hl]
    exact ⟨_, rfl, by rw [List.length_append]; omega⟩
  · rw [cString_append after hzero]
    exact ⟨after, rfl, Nat.le_refl _⟩

/-- What is found in the lines of such a buffer. -/
def foundsOf (limit : Nat) (text after : List UInt8) : Except Fault (List Found) :=
  let mem := text ++ 0 :: after
  scanFound replaced limit (text.length + after.length + 2) 0 (cString mem) (mem.drop ((cString mem).length + 1))

theorem map_token_foundsOf (limit : Nat) (text after : List UInt8) :
    (foundsOf limit text after).map (List.map Found.token) = tokensOf limit text after := map_token_scanFound ..

/-- `ParseConfig` fails as the pass over the text fails; else it gives the entries of the tokens, and marks one of them
    when there is a default line. -/
theorem parseConfig_founds (limit : Nat) (szPath : Option (List UInt8)) (text : List UInt8) (b : UInt8)
    (after : List UInt8) (hlimit : text.length < limit) :
    match foundsOf limit text after with
    | .error e => parseConfig limit szPath (text ++ b :: after) text.length = .error e
    | .ok founds => ∃ entries mem, parseConfig limit szPath (text ++ b :: after) text.length = .ok (entries, mem) ∧
        match lastDefault founds with
        | none => entries = entriesOf szPath (founds.map Found.token)
        | some found => ∃ d, entries = markDefault d (entriesOf szPath (founds.map Found.token)) ∧
            0 ∉ d ∧ (found.stays = true → d = found.token.value) ∧ (d = [] ↔ found.token.value = []) := by
  obtain ⟨tail, hmem, hbody⟩ := cString_split text after
  have hdrop : (text ++ 0 :: after).drop ((cString (text ++ 0 :: after)).length + 1) = tail := by
    nth_rewrite 2 [hmem]
    rw [← List.drop_drop, List.drop_left]
    rfl
  have hrounds : (text ++ b :: after).length + 1 = text.length + after.length + 2 := by
    rw [List.length_append, List.length_cons]
    omega
  have hloop := parseLoop_scan limit szPath (text.length + after.length + 2) []
    (s := { mem := text ++ 0 :: after, entries := [], currentEntry := CONFIGENTRY.zero, defaultTitle := none })
    hmem (cString_zero_notMem _) (by rw [List.length_nil]; omega)
  rw [List.length_nil] at hloop
  rw [parseConfig, storeByte_append hlimit, ok_bind, hrounds, foundsOf]
  dsimp only
  rw [hdrop]
  cases hscan : scanFound replaced limit (text.length + after.length + 2) 0 (cString (text ++ 0 :: after)) tail with
  | error e =>
      rw [hscan] at hloop
      exact (congrArg (· >>= _) hloop).trans (error_bind ..)
  | ok founds =>
      rw [hscan] at hloop
      obtain ⟨s', hrun, -, hgives, hentries⟩ := hloop
      have hes : s'.entries ++ [s'.currentEntry] = entriesOf szPath (founds.map Found.token) := by
        rw [entriesOf, ← hentries]
      rw [hrun, ok_bind]
      rw [GivesDefault] at hgives
      dsimp only
      cases hlast : lastDefault founds with
      | none =>
          rw [hlast] at hgives
          rw [show s'.defaultTitle = none from hgives]
          exact ⟨_, _, rfl, hes⟩
      | some found =>
          rw [hlast] at hgives
          obtain ⟨p, d, hp, hstring, hvalue⟩ := hgives
          rw [hp]
          dsimp only
          rw [hstring, ok_bind, hes]
          exact ⟨_, _, rfl, d, rfl, stringAt_zero_notMem hstring, hvalue⟩

/-- Without what is known of the default title. -/
theorem parseConfig_tokens (limit : Nat) (szPath : Option (List UInt8)) (text : List UInt8) (b : UInt8)
    (after : List UInt8) (hlimit : text.length < limit) :
    match tokensOf limit text after with
    | .error e => parseConfig limit szPath (text ++ b :: after) text.length = .error e
    | .ok tokens => ∃ entries mem, parseConfig limit szPath (text ++ b :: after) text.length = .ok (entries, mem) ∧
        (entries = entriesOf szPath tokens ∨ ∃ d, entries = markDefault d (entriesOf szPath tokens)) := by
  have hparse := parseConfig_founds limit szPath text b after hlimit
  rw [← map_token_foundsOf]
  cases hfounds : foundsOf limit text after with
  | error e =>
      rw [hfounds] at hparse
      exact hparse
  | ok founds =>
      rw [hfounds] at hparse
      obtain ⟨entries, mem, hrun, hentries⟩ := hparse
      refine ⟨entries, mem, hrun, ?_⟩
      split at hentries
      · exact Or.inl hentries
      · obtain ⟨d, hmark, -⟩ := hentries
        exact Or.inr ⟨d, hmark⟩

end Cromwell.Config
