/-
Module: Cromwell.Config.Bounds
Layer: Proofs
Purpose: When `ParseConfig` stays inside its buffer and inside the arrays of its entries. The last line decides about
  the buffer: without a separator its value is looked for behind the terminating NUL. The lengths of the values
  decide about the arrays. Where the text is left, what can be read in the memory behind it is the value of its last
  line.
Imports: Cromwell.Config.Lines
Trusted boundary: human-reviewed statement (CONFIGENTRY.Terminated, CONFIGENTRY.Intact, StaysInside, Token.Fits,
  Token.Stored)
Main exports: CONFIGENTRY.Terminated, CONFIGENTRY.Intact, StaysInside, configTokens, readTokens, configFounds, Token.Fits,
  Token.Stored, parseConfig_read, parseConfig_iff, config_in_bounds
-/
import Cromwell.Config.Lines

namespace Cromwell.Config

open BootLibrary

/-! ### Backslashes -/

/-- A token with its backslashes turned. -/
def Token.slashed (t : Token) : Token := ⟨t.keyword, t.value.map slash⟩

/-- The tokens of a text are those of its lines, up to the direction of slashes. -/
theorem lineFounds_slashed (after : List UInt8) (turned : Bool) (ls : List (List UInt8)) :
    ((lineFounds after turned ls).map Found.token).map Token.slashed = (lineTokens after ls).map Token.slashed := by
  induction ls generalizing turned with
  | nil =>
      rfl
  | cons line rest ih =>
      have hfirst : (lineFound after turned line rest).token.slashed =
          Token.slashed ⟨keywordOf (paramOf line), lineValue after line rest⟩ := by
        refine congrArg (Token.mk _) ?_
        rw [lineFound]
        dsimp only
        split
        · rfl
        · exact turn_slash turned
      rw [lineFounds, lineTokens, List.map_cons, List.map_cons, List.map_cons, ih, hfirst]

theorem keyed_slashed (tokens : List Token) : keyed (tokens.map Token.slashed) = (keyed tokens).map Token.slashed := by
  rw [keyed, keyed, List.filter_map]
  rfl

/-! ### The arrays of an entry -/

/-- No store left the array, and its string ends inside. -/
def CharArray.Terminated (a : CharArray) : Prop := a.overrun = false ∧ 0 ∈ a.bytes

/-- All strings of an entry. -/
structure CONFIGENTRY.Terminated (e : CONFIGENTRY) : Prop where
  title : e.title.Terminated
  szPath : e.szPath.Terminated
  szKernel : e.szKernel.Terminated
  szInitrd : e.szInitrd.Terminated
  szAppend : e.szAppend.Terminated

/-- Nothing is stored behind `szPath`, where a long title goes on, and behind the other arrays, and all strings end. -/
structure CONFIGENTRY.Intact (e : CONFIGENTRY) : Prop where
  szPath : e.szPath.Terminated
  szKernel : e.szKernel.Terminated
  szInitrd : e.szInitrd.Terminated
  szAppend : e.szAppend.Terminated

theorem CONFIGENTRY.terminated_iff (e : CONFIGENTRY) : e.Terminated ↔ e.Intact ∧ e.title.Terminated :=
  ⟨fun ⟨ht, hp, hk, hi, ha⟩ => ⟨⟨hp, hk, hi, ha⟩, ht⟩, fun ⟨⟨hp, hk, hi, ha⟩, ht⟩ => ⟨ht, hp, hk, hi, ha⟩⟩

/-- The value of a token fits in its array with its NUL. -/
def Token.Fits (szPath : Option (List UInt8)) (t : Token) : Prop :=
  match t.keyword with
  | some .title => t.value.length ≤ 14
  | some .kernel => (filePath szPath (t.value.map slash)).length ≤ 2047
  | some .initrd => strncmp (t.value.map slash) noWord 2 = 0 ∨ (filePath szPath (t.value.map slash)).length ≤ 2047
  | some .append => t.value.length ≤ 2047
  | some .default => True
  | none => True

/-- The value of a token fits in its array with its NUL, or as a title in `title` and `szPath` together. -/
def Token.Stored (szPath : Option (List UInt8)) (t : Token) : Prop :=
  if t.keyword = some .title then t.value.length ≤ 2062 else t.Fits szPath

theorem Token.fits_iff (szPath : Option (List UInt8)) (t : Token) :
    t.Fits szPath ↔ t.Stored szPath ∧ (t.keyword = some .title → t.value.length ≤ 14) := by
  by_cases htitle : t.keyword = some .title
  · rw [Token.Stored, if_pos htitle, Token.Fits, htitle, forall_prop_of_true rfl]
    dsimp only
    omega
  · rw [Token.Stored, if_neg htitle, and_iff_left fun h => absurd h htitle]

theorem Token.fits_slashed (szPath : Option (List UInt8)) (t : Token) : t.slashed.Fits szPath ↔ t.Fits szPath := by
  obtain ⟨k, value⟩ := t
  unfold Token.Fits Token.slashed
  dsimp only
  rw [slash_slash, List.length_map]

theorem Token.stored_slashed (szPath : Option (List UInt8)) (t : Token) : t.slashed.Stored szPath ↔ t.Stored szPath := by
  rw [Token.Stored, Token.Stored, Token.fits_slashed, Token.slashed]
  dsimp only
  rw [List.length_map]

section Arrays

variable {a : CharArray} {src : List UInt8}

theorem CharArray.put_length (a : CharArray) (src : List UInt8) : (a.put src).bytes.length = a.bytes.length := by
  rw [CharArray.put, List.length_append, List.length_take, List.length_drop]
  omega

/-- A string with its NUL. -/
theorem CharArray.sprintf_terminated : (a.sprintf src).Terminated ↔ a.overrun = false ∧ src.length < a.bytes.length := by
  rw [CharArray.Terminated, CharArray.sprintf, CharArray.put, Bool.or_eq_false_iff, decide_eq_false_iff_not,
    List.length_append, List.length_singleton]
  refine ⟨fun h => ⟨h.1.1, by omega⟩, fun h => ⟨⟨h.1, by omega⟩, ?_⟩⟩
  rw [List.take_of_length_le (by rw [List.length_append, List.length_singleton]; omega)]
  exact List.mem_append_left _ (List.mem_append_right _ (List.mem_singleton.mpr rfl))

/-- A string without its NUL over an array whose last byte is 0. -/
theorem CharArray.strncpy_terminated (hzero : 0 ∉ src) (hlast : a.Terminated → a.bytes.getLast? = some 0) :
    (a.strncpy src).Terminated ↔ a.Terminated ∧ src.length < a.bytes.length := by
  rw [CharArray.Terminated, CharArray.strncpy, CharArray.put, Bool.or_eq_false_iff, decide_eq_false_iff_not]
  constructor
  · rintro ⟨⟨hrun, hlen⟩, hmem⟩
    rcases List.mem_append.mp hmem with hmem | hmem
    · exact absurd (List.mem_of_mem_take hmem) hzero
    · refine ⟨⟨hrun, List.mem_of_mem_drop hmem⟩, ?_⟩
      by_contra hge
      rw [List.drop_eq_nil_of_le (by omega)] at hmem
      cases hmem
  · rintro ⟨hterm, hlen⟩
    refine ⟨⟨hterm.1, by omega⟩, List.mem_append_right _ ?_⟩
    have hget := hlast hterm
    rw [List.getLast?_eq_getElem?] at hget
    refine List.mem_iff_getElem?.mpr ⟨a.bytes.length - 1 - src.length, ?_⟩
    rw [List.getElem?_drop, show src.length + (a.bytes.length - 1 - src.length) = a.bytes.length - 1 by omega, hget]

/-- Such a string leaves the last byte alone. -/
theorem CharArray.strncpy_last (hlen : src.length < a.bytes.length) :
    (a.strncpy src).bytes.getLast? = a.bytes.getLast? := by
  rw [List.getLast?_eq_getElem?, List.getLast?_eq_getElem?, CharArray.strncpy, CharArray.put_length, CharArray.put]
  dsimp only
  rw [List.take_of_length_le (by omega), List.getElem?_append_right (by omega), List.getElem?_drop,
    show src.length + (a.bytes.length - 1 - src.length) = a.bytes.length - 1 by omega]

end Arrays

theorem CharArray.put_nil (a : CharArray) : a.put [] = a := by
  rw [CharArray.put, List.take_nil, List.nil_append, List.length_nil, List.drop_zero,
    decide_eq_false (Nat.not_lt_zero _), Bool.or_false]

/-- Nothing has been written into the array of the title and the one behind it. -/
def CONFIGENTRY.Untitled (e : CONFIGENTRY) : Prop := e.title = .zero 15 ∧ e.szPath = .zero maxLine

/-- What holds of an entry on the way: an empty title has not been written, and an array is only left without a NUL
    by a string that does not fit. -/
structure CONFIGENTRY.Inv (e : CONFIGENTRY) : Prop where
  title : e.Untitled ∨ e.titleString ≠ []
  szKernel : e.szKernel.bytes.length = 2048 ∧ (e.szKernel.overrun = false → e.szKernel.Terminated)
  szInitrd : e.szInitrd.bytes.length = 2048 ∧ (e.szInitrd.overrun = false → e.szInitrd.Terminated)
  szAppend : e.szAppend.bytes.length = 2048 ∧ (e.szAppend.Terminated → e.szAppend.bytes.getLast? = some 0)

theorem CharArray.zero_terminated {size : Nat} (h : 0 < size) : (CharArray.zero size).Terminated :=
  ⟨rfl, List.mem_replicate.mpr ⟨by omega, rfl⟩⟩

theorem CharArray.zero_last (size : Nat) (h : 0 < size) : (CharArray.zero size).bytes.getLast? = some 0 := by
  rw [List.getLast?_eq_getElem?, CharArray.zero, List.length_replicate, List.getElem?_replicate, if_pos (by omega)]

theorem CONFIGENTRY.zero_terminated : CONFIGENTRY.zero.Terminated :=
  ⟨CharArray.zero_terminated (by decide), CharArray.zero_terminated (by decide), CharArray.zero_terminated (by decide),
    CharArray.zero_terminated (by decide), CharArray.zero_terminated (by decide)⟩

theorem CONFIGENTRY.zero_inv : CONFIGENTRY.zero.Inv where
  title := Or.inl ⟨rfl, rfl⟩
  szKernel := ⟨List.length_replicate, fun _ => CharArray.zero_terminated (by decide)⟩
  szInitrd := ⟨List.length_replicate, fun _ => CharArray.zero_terminated (by decide)⟩
  szAppend := ⟨List.length_replicate, fun _ => CharArray.zero_last _ (by decide)⟩

/-! ### The entries of tokens -/

/-- Of all entries so far. -/
def AllEntries (P : CONFIGENTRY → Prop) (es : List CONFIGENTRY × CONFIGENTRY) : Prop := (∀ e ∈ es.1, P e) ∧ P es.2

/-- A title that is stored is written, and decides by its length where it ends. -/
theorem CONFIGENTRY.Untitled.storeTitle {e : CONFIGENTRY} (h : e.Untitled) {value : List UInt8} (hzero : 0 ∉ value) :
    ((e.storeTitle value).Untitled ∨ (e.storeTitle value).titleString ≠ []) ∧
      ((e.storeTitle value).szPath.Terminated ↔ value.length ≤ 2062) ∧
      ((e.storeTitle value).title.Terminated ↔ value.length ≤ 14) := by
  obtain ⟨htitle, hpath⟩ := h
  have hlength : (CharArray.zero 15).bytes.length = 15 := rfl
  rw [CONFIGENTRY.Untitled, CONFIGENTRY.titleString, CONFIGENTRY.storeTitle]
  dsimp only
  rw [htitle, hpath, hlength]
  refine ⟨?_, ?_, ?_⟩
  · cases value with
    | nil =>
        exact Or.inl ⟨rfl, CharArray.put_nil _⟩
    | cons b value =>
        have hb : b ≠ 0 := fun h => hzero (h ▸ List.mem_cons_self)
        refine Or.inr ?_
        rw [CharArray.strncpy, CharArray.put, cString]
        show List.takeWhile _ (b :: _) ≠ []
        rw [List.takeWhile_cons_of_pos (by simpa using hb)]
        exact List.cons_ne_nil _ _
  · have hrest : (0 : UInt8) ∉ value.drop 15 := fun h => hzero (List.mem_of_mem_drop h)
    have hiff := CharArray.strncpy_terminated (a := .zero maxLine) hrest fun _ => CharArray.zero_last maxLine (by decide)
    have hsize : (CharArray.zero maxLine).bytes.length = 2048 := List.length_replicate
    refine hiff.trans ?_
    rw [hsize, List.length_drop, and_iff_right (CharArray.zero_terminated (by decide))]
    omega
  · rw [CharArray.strncpy_terminated hzero fun _ => CharArray.zero_last 15 (by decide), hlength,
      and_iff_right (CharArray.zero_terminated (by decide))]
    omega

/-- A file name over an array of an entry. -/
theorem sprintf_step {a : CharArray} (src : List UInt8)
    (h : a.bytes.length = 2048 ∧ (a.overrun = false → a.Terminated)) :
    ((a.sprintf src).bytes.length = 2048 ∧ ((a.sprintf src).overrun = false → (a.sprintf src).Terminated)) ∧
      ((a.sprintf src).Terminated ↔ a.Terminated ∧ src.length ≤ 2047) := by
  obtain ⟨hlength, hterm⟩ := h
  refine ⟨⟨(CharArray.put_length _ _).trans hlength, fun hrun => ?_⟩, ?_⟩
  · rw [CharArray.sprintf, CharArray.put, Bool.or_eq_false_iff, decide_eq_false_iff_not, List.length_append,
      List.length_singleton] at hrun
    exact CharArray.sprintf_terminated.mpr ⟨hrun.1, by omega⟩
  · rw [CharArray.sprintf_terminated, hlength]
    exact ⟨fun h => ⟨hterm h.1, by omega⟩, fun h => ⟨h.1.1, by omega⟩⟩

/-- A command line over its array. -/
theorem strncpy_step {a : CharArray} {src : List UInt8} (hzero : 0 ∉ src)
    (h : a.bytes.length = 2048 ∧ (a.Terminated → a.bytes.getLast? = some 0)) :
    ((a.strncpy src).bytes.length = 2048 ∧ ((a.strncpy src).Terminated → (a.strncpy src).bytes.getLast? = some 0)) ∧
      ((a.strncpy src).Terminated ↔ a.Terminated ∧ src.length ≤ 2047) := by
  obtain ⟨hlength, hlast⟩ := h
  have hiff := CharArray.strncpy_terminated hzero hlast
  refine ⟨⟨(CharArray.put_length _ _).trans hlength, fun hterm => ?_⟩, ?_⟩
  · obtain ⟨hold, hlen⟩ := hiff.mp hterm
    rw [CharArray.strncpy_last hlen]
    exact hlast hold
  · rw [hiff, hlength]
    exact ⟨fun h => ⟨h.1, by omega⟩, fun h => ⟨h.1, by omega⟩⟩

section Update

variable {e : CONFIGENTRY} {a : CharArray} {P : Prop}

theorem intact_storeTitle (value : List UInt8) (h : (e.storeTitle value).szPath.Terminated ↔ e.szPath.Terminated ∧ P) :
    (e.storeTitle value).Intact ↔ e.Intact ∧ P :=
  ⟨fun ⟨hp, hk, hi, ha⟩ => ⟨⟨(h.mp hp).1, hk, hi, ha⟩, (h.mp hp).2⟩,
    fun ⟨⟨hp, hk, hi, ha⟩, hP⟩ => ⟨h.mpr ⟨hp, hP⟩, hk, hi, ha⟩⟩

theorem intact_szKernel (h : a.Terminated ↔ e.szKernel.Terminated ∧ P) :
    CONFIGENTRY.Intact { e with szKernel := a } ↔ e.Intact ∧ P :=
  ⟨fun ⟨hp, hk, hi, ha⟩ => ⟨⟨hp, (h.mp hk).1, hi, ha⟩, (h.mp hk).2⟩,
    fun ⟨⟨hp, hk, hi, ha⟩, hP⟩ => ⟨hp, h.mpr ⟨hk, hP⟩, hi, ha⟩⟩

theorem intact_szInitrd (h : a.Terminated ↔ e.szInitrd.Terminated ∧ P) :
    CONFIGENTRY.Intact { e with szInitrd := a } ↔ e.Intact ∧ P :=
  ⟨fun ⟨hp, hk, hi, ha⟩ => ⟨⟨hp, hk, (h.mp hi).1, ha⟩, (h.mp hi).2⟩,
    fun ⟨⟨hp, hk, hi, ha⟩, hP⟩ => ⟨hp, hk, h.mpr ⟨hi, hP⟩, ha⟩⟩

theorem intact_szAppend (h : a.Terminated ↔ e.szAppend.Terminated ∧ P) :
    CONFIGENTRY.Intact { e with szAppend := a } ↔ e.Intact ∧ P :=
  ⟨fun ⟨hp, hk, hi, ha⟩ => ⟨⟨hp, hk, hi, (h.mp ha).1⟩, (h.mp ha).2⟩,
    fun ⟨⟨hp, hk, hi, ha⟩, hP⟩ => ⟨hp, hk, hi, h.mpr ⟨ha, hP⟩⟩⟩

end Update

/-- A token keeps the invariant, and leaves the arrays behind the titles intact exactly when its value is stored. -/
theorem Token.apply_spec (szPath : Option (List UInt8)) {es : List CONFIGENTRY × CONFIGENTRY} {t : Token}
    (hinv : es.2.Inv) (hzero : 0 ∉ t.value) :
    (t.apply szPath es).2.Inv ∧
      (AllEntries CONFIGENTRY.Intact (t.apply szPath es) ↔ AllEntries CONFIGENTRY.Intact es ∧ t.Stored szPath) := by
  obtain ⟨closed, current⟩ := es
  obtain ⟨k, value⟩ := t
  obtain ⟨htitle, hkernel, hinitrd, happend⟩ := hinv
  dsimp only at *
  cases k with
  | none =>
      exact ⟨⟨htitle, hkernel, hinitrd, happend⟩, (and_iff_left trivial).symm⟩
  | some k =>
      cases k with
      | title =>
          rw [Token.apply]
          dsimp only
          split
          case isTrue hempty =>
            have hold : current.Untitled := htitle.resolve_right fun h => h (List.eq_nil_of_length_eq_zero hempty)
            have hterm : current.szPath.Terminated := by
              rw [hold.2]
              exact CharArray.zero_terminated (by decide)
            obtain ⟨hwritten, hpath, -⟩ := hold.storeTitle hzero
            refine ⟨⟨hwritten, hkernel, hinitrd, happend⟩, ?_⟩
            exact (and_congr_right' (intact_storeTitle value (hpath.trans (and_iff_right hterm).symm))).trans
              and_assoc.symm
          case isFalse hfull =>
            obtain ⟨hwritten, hpath, -⟩ := CONFIGENTRY.Untitled.storeTitle (e := CONFIGENTRY.zero) ⟨rfl, rfl⟩ hzero
            obtain ⟨-, hk, hi, ha⟩ := CONFIGENTRY.zero_inv
            have hzeros := ((CONFIGENTRY.terminated_iff _).mp CONFIGENTRY.zero_terminated).1
            refine ⟨⟨hwritten, hk, hi, ha⟩, ?_⟩
            rw [AllEntries, AllEntries, List.forall_mem_append, List.forall_mem_singleton, Token.Stored]
            refine and_congr Iff.rfl ?_
            exact (intact_storeTitle value (hpath.trans (and_iff_right hzeros.szPath).symm)).trans (and_iff_right hzeros)
      | kernel =>
          obtain ⟨hstep, hiff⟩ := sprintf_step (filePath szPath (value.map slash)) hkernel
          refine ⟨⟨htitle, hstep, hinitrd, happend⟩, ?_⟩
          exact (and_congr_right' (intact_szKernel hiff)).trans and_assoc.symm
      | initrd =>
          rw [Token.apply]
          dsimp only
          split
          case isTrue hno =>
            exact ⟨⟨htitle, hkernel, hinitrd, happend⟩, (and_iff_left (Or.inl hno)).symm⟩
          case isFalse hyes =>
            obtain ⟨hstep, hiff⟩ := sprintf_step (filePath szPath (value.map slash)) hinitrd
            refine ⟨⟨htitle, hkernel, hstep, happend⟩, ?_⟩
            rw [Token.Stored, if_neg (fun h => absurd (Option.some.inj h) (by decide)), Token.Fits]
            dsimp only
            rw [or_iff_right hyes]
            exact (and_congr_right' (intact_szInitrd hiff)).trans and_assoc.symm
      | append =>
          obtain ⟨hstep, hiff⟩ := strncpy_step hzero happend
          refine ⟨⟨htitle, hkernel, hinitrd, hstep⟩, ?_⟩
          exact (and_congr_right' (intact_szAppend hiff)).trans and_assoc.symm
      | default =>
          exact ⟨⟨htitle, hkernel, hinitrd, happend⟩, (and_iff_left trivial).symm⟩

/-- A token leaves the titles ended exactly when it has no title that is too long. -/
theorem Token.apply_titles (szPath : Option (List UInt8)) {es : List CONFIGENTRY × CONFIGENTRY} {t : Token}
    (hinv : es.2.Inv) (hzero : 0 ∉ t.value) :
    AllEntries (fun e => e.title.Terminated) (t.apply szPath es) ↔
      AllEntries (fun e => e.title.Terminated) es ∧ (t.keyword = some .title → t.value.length ≤ 14) := by
  obtain ⟨closed, current⟩ := es
  obtain ⟨k, value⟩ := t
  dsimp only at *
  cases k with
  | none =>
      exact (and_iff_left fun h => absurd h.symm (Option.some_ne_none _)).symm
  | some k =>
      have hother : k ≠ .title → (some k = some Keyword.title → value.length ≤ 14) := fun hne h =>
        absurd (Option.some.inj h) hne
      cases k with
      | title =>
          rw [Token.apply, forall_prop_of_true rfl]
          dsimp only
          split
          case isTrue hempty =>
            have hold : current.Untitled := hinv.title.resolve_right fun h => h (List.eq_nil_of_length_eq_zero hempty)
            have hterm : current.title.Terminated := by
              rw [hold.1]
              exact CharArray.zero_terminated (by decide)
            obtain ⟨-, -, htitle⟩ := hold.storeTitle hzero
            exact (and_congr_right' (htitle.trans (and_iff_right hterm).symm)).trans and_assoc.symm
          case isFalse hfull =>
            obtain ⟨-, -, htitle⟩ := CONFIGENTRY.Untitled.storeTitle (e := CONFIGENTRY.zero) ⟨rfl, rfl⟩ hzero
            rw [AllEntries, AllEntries, List.forall_mem_append, List.forall_mem_singleton]
            exact and_congr Iff.rfl htitle
      | kernel => exact (and_iff_left (hother (by decide))).symm
      | initrd =>
          rw [and_iff_left (hother (by decide)), Token.apply]
          dsimp only
          split
          · exact Iff.rfl
          · exact Iff.rfl
      | append => exact (and_iff_left (hother (by decide))).symm
      | default => exact (and_iff_left (hother (by decide))).symm

/-- The arrays behind the titles are intact exactly when all values are stored, and the titles end exactly when none is
    too long. -/
theorem entries_intact (szPath : Option (List UInt8)) {tokens : List Token} {es : List CONFIGENTRY × CONFIGENTRY}
    (hinv : es.2.Inv) (hzero : ∀ t ∈ tokens, 0 ∉ t.value) :
    (AllEntries CONFIGENTRY.Intact (tokens.foldl (Token.apply szPath) es) ↔
      AllEntries CONFIGENTRY.Intact es ∧ ∀ t ∈ tokens, t.Stored szPath) ∧
    (AllEntries (fun e => e.title.Terminated) (tokens.foldl (Token.apply szPath) es) ↔
      AllEntries (fun e => e.title.Terminated) es ∧ ∀ t ∈ tokens, t.keyword = some .title → t.value.length ≤ 14) := by
  induction tokens generalizing es with
  | nil =>
      exact ⟨(and_iff_left (List.forall_mem_nil _)).symm, (and_iff_left (List.forall_mem_nil _)).symm⟩
  | cons t tokens ih =>
      have hfirst := hzero t List.mem_cons_self
      obtain ⟨hnext, hiff⟩ := Token.apply_spec szPath hinv hfirst
      obtain ⟨hintact, htitles⟩ := ih hnext fun t ht => hzero t (List.mem_cons_of_mem _ ht)
      rw [List.foldl_cons, hintact, htitles, hiff, Token.apply_titles szPath hinv hfirst, List.forall_mem_cons,
        List.forall_mem_cons, and_assoc, and_assoc]
      exact ⟨Iff.rfl, Iff.rfl⟩

/-- Lines without a keyword have no part in a fold in which they do nothing. -/
theorem foldl_keyed_of {State : Type} {step : State → Token → State} (h : ∀ s t, t.keyword = none → step s t = s)
    (tokens : List Token) (s : State) : tokens.foldl step s = (keyed tokens).foldl step s := by
  induction tokens generalizing s with
  | nil =>
      rfl
  | cons t tokens ih =>
      rw [keyed_cons, List.foldl_cons, ih]
      split
      case isTrue hsome =>
        rfl
      case isFalse hnone =>
        rw [h s t (Option.not_isSome_iff_eq_none.mp hnone)]

/-- Lines without a keyword do nothing. -/
theorem foldl_keyed (szPath : Option (List UInt8)) (tokens : List Token) (es : List CONFIGENTRY × CONFIGENTRY) :
    tokens.foldl (Token.apply szPath) es = (keyed tokens).foldl (Token.apply szPath) es :=
  foldl_keyed_of (fun _ _ h => by rw [Token.apply, h]) tokens es

/-! ### The text -/

/-- The lines of a text, which ends at its first NUL. -/
def configLines (text : List UInt8) : List (List UInt8) := (cString text).splitOn 0x0a

/-- The search for values stays inside the text: the text holds a NUL of its own, or white space at its end is
    replaced by one, or the last line has a separator. -/
def StaysInside (text : List UInt8) : Prop :=
  0 ∈ text ∨ TrimsTail (configLines text) ∨ (afterSeparator ((configLines text).getLastD [])).isSome = true

instance (text : List UInt8) : Decidable (StaysInside text) :=
  inferInstanceAs (Decidable (0 ∈ text ∨ TrimsTail (configLines text) ∨
    (afterSeparator ((configLines text).getLastD [])).isSome = true))

/-- The keywords and values of a text that `ParseConfig` does not leave. -/
def configTokens (text : List UInt8) : List Token :=
  lineTokens (if TrimsTail (configLines text) then [] else text.drop ((cString text).length + 1)) (configLines text)

theorem configLines_spec {text line : List UInt8} (h : line ∈ configLines text) : 0x0a ∉ line ∧ 0 ∉ line :=
  ⟨notMem_of_mem_splitOn h, fun hzero => cString_zero_notMem text (mem_of_mem_splitOn h hzero)⟩

theorem joinLines_configLines (text : List UInt8) : joinLines (configLines text) = cString text := joinLines_splitOn _

theorem configLines_ne_nil (text : List UInt8) : configLines text ≠ [] := List.splitOn_ne_nil _ _

/-- The values of lines hold no NUL. -/
theorem lineTokens_zero (after : List UInt8) {ls : List (List UInt8)} (h : ∀ line ∈ ls, 0 ∉ line) :
    0 ∉ joinLines ls ∧ ∀ t ∈ lineTokens after ls, 0 ∉ t.value := by
  induction ls with
  | nil =>
      exact ⟨List.not_mem_nil, fun t ht => nomatch ht⟩
  | cons line rest ih =>
      obtain ⟨hjoin, htokens⟩ := ih fun line hline => h line (List.mem_cons_of_mem _ hline)
      have hline := h line List.mem_cons_self
      refine ⟨?_, List.forall_mem_cons.mpr ⟨?_, htokens⟩⟩
      · by_cases hrest : rest = []
        · rw [hrest]
          exact hline
        · rw [joinLines_cons line hrest, List.mem_append, List.mem_cons, not_or, not_or]
          exact ⟨hline, by decide, hjoin⟩
      · show 0 ∉ lineValue after line rest
        rw [lineValue]
        split
        case h_1 v hv =>
          obtain ⟨c, hparts, -⟩ := afterSeparator_some hv
          refine notMem_trim fun hmem => hline ?_
          rw [hparts]
          exact List.mem_append_right _ (List.mem_cons_of_mem _ hmem)
        case h_2 _ =>
          split
          · exact notMem_trim (cString_zero_notMem after)
          · exact notMem_trim hjoin

theorem cString_text (text after : List UInt8) : cString (text ++ 0 :: after) = cString text := by
  by_cases hzero : 0 ∈ text
  · obtain ⟨l, r, rfl, hl⟩ := List.eq_append_cons_of_mem hzero
    rw [List.append_assoc, List.cons_append, cString_append _ hl, cString_append _ hl]
  · have hall : ∀ b ∈ text, decide (b ≠ 0) = true := fun b hb => decide_eq_true fun h => hzero (h ▸ hb)
    rw [cString_append after hzero, cString, List.takeWhile_eq_self_iff.mpr hall]

theorem cString_length_le (text : List UInt8) : (cString text).length ≤ text.length := (List.takeWhile_prefix _).length_le

/-- What can be read behind the first NUL. -/
def tailOf (text after : List UInt8) : List UInt8 := (text ++ 0 :: after).drop ((cString text).length + 1)

section Text

variable {limit : Nat} {text : List UInt8}

theorem foundsOf_eq (limit : Nat) (text after : List UInt8) :
    foundsOf limit text after = scanFound replaced limit (text.length + after.length + 2) 0
      (turn false (joinLines (configLines text))) (tailOf text after) := by
  rw [foundsOf, joinLines_configLines, cString_text]
  rfl

/-- The pass over a text with a trimmed tail. -/
theorem foundsOf_trimmed (after : List UInt8) (hlimit : text.length < limit) (htrim : TrimsTail (configLines text)) :
    ∃ founds, foundsOf limit text after = .ok founds ∧
      keyedFounds founds = keyedFounds (lineFounds [] false (configLines text)) := by
  have hshort := cString_length_le text
  have hlines := length_splitOn_le (0x0a : UInt8) (cString text)
  rw [foundsOf_eq]
  refine found_trimmed (fun line hline => configLines_spec hline) htrim ?_ ?_ false
  · exact Nat.le_trans hlines (by omega)
  · rw [joinLines_configLines]
    omega

/-- The pass over any other text. -/
theorem foundsOf_kept (limit : Nat) (after : List UInt8) (hkeep : ¬ TrimsTail (configLines text)) :
    foundsOf limit text after =
      match lastFault limit (cString text).length ((configLines text).getLastD []) (tailOf text after) with
      | none => .ok (lineFounds (tailOf text after) false (configLines text))
      | some e => .error e := by
  have hshort := cString_length_le text
  have hlines := length_splitOn_le (0x0a : UInt8) (cString text)
  rw [foundsOf_eq, found_lines limit (tailOf text after) (configLines_ne_nil text)
    (fun line hline => (configLines_spec hline).1) hkeep
    (Nat.le_trans hlines (show _ ≤ text.length + after.length + 2 by omega)) 0 false, joinLines_configLines,
    Nat.zero_add, List.getLastD_eq_getLast?, List.getLast?_eq_some_getLast (configLines_ne_nil text)]
  rfl

end Text

/-- What a line without a separator can take for its value when it is the last one. -/
def behindText (text after : List UInt8) : List UInt8 := if TrimsTail (configLines text) then [] else tailOf text after

/-- What is found in the lines of a text, in front of the memory `after`. -/
def configFounds (text after : List UInt8) : List Found := lineFounds (behindText text after) false (configLines text)

/-- The keywords and values of a text in front of the memory `after`. -/
def readTokens (text after : List UInt8) : List Token := lineTokens (behindText text after) (configLines text)

theorem lineTokens_congr {after after' : List UInt8} (h : cString after = cString after') (ls : List (List UInt8)) :
    lineTokens after ls = lineTokens after' ls := by
  induction ls with
  | nil =>
      rfl
  | cons line rest ih =>
      have hvalue : lineValue after line rest = lineValue after' line rest := by
        rw [lineValue, lineValue, h]
      rw [lineTokens, lineTokens, ih, hvalue]

theorem cString_tailOf (text : List UInt8) : cString (tailOf text []) = cString (text.drop ((cString text).length + 1)) := by
  rw [tailOf]
  by_cases hlong : (cString text).length + 1 ≤ text.length
  · rw [List.drop_append_of_le_length hlong, cString_text]
  · rw [List.drop_eq_nil_of_le (by rw [List.length_append, List.length_singleton]; omega),
      List.drop_eq_nil_of_le (by omega)]

/-- In a buffer of its own a text has the tokens that stay inside it. -/
theorem readTokens_buffer (text : List UInt8) : readTokens text [] = configTokens text := by
  refine lineTokens_congr ?_ _
  rw [behindText]
  split
  · rfl
  · exact cString_tailOf text

/-- A NUL that can be read behind the lines is found. -/
theorem lastFault_read {text after line : List UInt8} (h : (0 ∈ text ∨ 0 ∈ after) ∨ (afterSeparator line).isSome = true) :
    lastFault (text.length + 1 + after.length) (cString text).length line (tailOf text after) = none := by
  rw [lastFault]
  by_cases hline : (afterSeparator line).isSome = true
  · exact if_pos hline
  · have hmem : 0 ∈ tailOf text after := by
      by_cases hzero : 0 ∈ text
      · obtain ⟨l, r, rfl, hl⟩ := List.eq_append_cons_of_mem hzero
        rw [tailOf, cString_append r hl, List.append_assoc, List.cons_append, ← List.drop_drop, List.drop_left]
        exact List.mem_append_right r List.mem_cons_self
      · have hbody : cString text = text := List.takeWhile_eq_self_iff.mpr fun b hb => decide_eq_true fun h => hzero (h ▸ hb)
        rw [tailOf, hbody, ← List.drop_drop, List.drop_left]
        exact (h.resolve_right hline).resolve_left hzero
    have hlength : (cString text).length + 1 + (tailOf text after).length = text.length + 1 + after.length := by
      have hshort := cString_length_le text
      rw [tailOf, List.length_drop, List.length_append, List.length_cons]
      omega
    have hstring : (cString (tailOf text after)).length < (tailOf text after).length := by
      obtain ⟨l, r, hsplit, hl⟩ := List.eq_append_cons_of_mem hmem
      rw [hsplit, cString_append r hl, List.length_append, List.length_cons]
      omega
    have htrim : (trimEnd (cString (tailOf text after))).length ≤ (cString (tailOf text after)).length :=
      (List.rdropWhile_prefix isspace _).length_le
    rw [if_neg hline, if_pos hmem, if_pos]
    omega

/-- A pass that stays inside its text or finds a NUL behind it. -/
theorem foundsOf_read {text after : List UInt8} (hread : StaysInside text ∨ 0 ∈ after) :
    ∃ founds, foundsOf (text.length + 1 + after.length) text after = .ok founds ∧
      keyedFounds founds = keyedFounds (configFounds text after) := by
  by_cases htrim : TrimsTail (configLines text)
  · obtain ⟨founds, hok, hkeyed⟩ := @foundsOf_trimmed (text.length + 1 + after.length) text after (by omega) htrim
    refine ⟨founds, hok, ?_⟩
    rw [hkeyed, configFounds, behindText, if_pos htrim]
  · have hkept := foundsOf_kept (text.length + 1 + after.length) after htrim
    rw [lastFault_read] at hkept
    · exact ⟨_, hkept, by rw [configFounds, behindText, if_neg htrim]⟩
    · rcases hread with (hnul | htrim' | hsep) | hafter
      · exact Or.inl (Or.inl hnul)
      · exact absurd htrim' htrim
      · exact Or.inr hsep
      · exact Or.inl (Or.inr hafter)

/-- A pass over the buffer of a text alone fails when it leaves the text. -/
theorem foundsOf_leaves {text : List UInt8} (h : ¬ StaysInside text) :
    ∃ e, foundsOf (text.length + 1) text [] = .error e := by
  rw [StaysInside, not_or, not_or] at h
  obtain ⟨hzero, htrim, hsep⟩ := h
  have hkept := foundsOf_kept (text.length + 1) [] htrim
  have hbody : cString text = text := List.takeWhile_eq_self_iff.mpr fun b hb => decide_eq_true fun h => hzero (h ▸ hb)
  have htail : tailOf text [] = [] := by
    rw [tailOf, hbody, ← List.drop_drop, List.drop_left]
    rfl
  rw [lastFault, if_neg hsep, htail, if_neg List.not_mem_nil] at hkept
  exact ⟨.load, hkept⟩

/-- The tokens of a text, up to the direction of slashes. -/
theorem configFounds_slashed {founds : List Found} {text after : List UInt8}
    (h : keyedFounds founds = keyedFounds (configFounds text after)) :
    (keyed (founds.map Found.token)).map Token.slashed = (keyed (readTokens text after)).map Token.slashed := by
  rw [← map_token_keyedFounds, h, map_token_keyedFounds, ← keyed_slashed, ← keyed_slashed, configFounds,
    lineFounds_slashed, readTokens]

/-- A pass stores behind the limit exactly when the text keeps its tail and the search for the value of its last line
    does. -/
theorem foundsOf_store_iff {limit : Nat} {text : List UInt8} (after : List UInt8) (hlimit : text.length < limit) :
    foundsOf limit text after = .error .store ↔
      ¬ TrimsTail (configLines text) ∧
        lastFault limit (cString text).length ((configLines text).getLastD []) (tailOf text after) = some .store := by
  by_cases htrim : TrimsTail (configLines text)
  · obtain ⟨founds, hok, -⟩ := foundsOf_trimmed after hlimit htrim
    rw [hok]
    exact iff_of_false nofun fun h => h.1 htrim
  · rw [and_iff_right htrim, foundsOf_kept limit after htrim]
    cases lastFault limit (cString text).length ((configLines text).getLastD []) (tailOf text after) with
    | none => exact iff_of_false nofun nofun
    | some fault => rw [Except.error.injEq, Option.some_inj]

/-- `ParseConfig` stores behind the limit exactly when the text does not end in front of it or the pass does. -/
theorem parseConfig_store_iff (limit : Nat) (szPath : Option (List UInt8)) (text : List UInt8) (last : UInt8)
    (after : List UInt8) :
    parseConfig limit szPath (text ++ last :: after) text.length = .error .store ↔
      limit ≤ text.length ∨ ¬ TrimsTail (configLines text) ∧
        lastFault limit (cString text).length ((configLines text).getLastD []) (tailOf text after) = some .store := by
  by_cases hlimit : text.length < limit
  · have hparse := parseConfig_founds limit szPath text last after hlimit
    rw [or_iff_right (Nat.not_le.mpr hlimit), ← foundsOf_store_iff after hlimit]
    cases hfounds : foundsOf limit text after with
    | error fault =>
        rw [hfounds] at hparse
        dsimp only at hparse
        rw [hparse, Except.error.injEq, Except.error.injEq]
    | ok founds =>
        rw [hfounds] at hparse
        obtain ⟨entries, mem, hrun, -⟩ := hparse
        rw [hrun]
        exact iff_of_false nofun nofun
  · refine iff_of_true ?_ (Or.inl (Nat.not_lt.mp hlimit))
    rw [parseConfig, storeByte, if_neg fun h => hlimit h.1]
    rfl

/-- The mark of the default is in no array. -/
theorem markDefault_forall {P : CONFIGENTRY → Prop} (h : ∀ e : CONFIGENTRY, P { e with isDefault := 1 } ↔ P e)
    (d : List UInt8) (entries : List CONFIGENTRY) : (∀ e ∈ markDefault d entries, P e) ↔ ∀ e ∈ entries, P e := by
  induction entries with
  | nil =>
      exact Iff.rfl
  | cons e entries ih =>
      rw [markDefault]
      split
      · rw [List.forall_mem_cons, List.forall_mem_cons, h e]
      · rw [List.forall_mem_cons, List.forall_mem_cons, ih]

section Slashed

variable {szPath : Option (List UInt8)} {text behind : List UInt8} {tokens : List Token}

/-- The values of the tokens of a text hold no NUL. -/
theorem keyed_zero
    (h : (keyed tokens).map Token.slashed = (keyed (lineTokens behind (configLines text))).map Token.slashed) :
    ∀ t ∈ keyed tokens, 0 ∉ t.value := by
  have hzeros := (lineTokens_zero behind fun line hline => (configLines_spec (show line ∈ configLines text from hline)).2).2
  intro t ht hmem
  have hslashed : t.slashed ∈ (keyed (lineTokens behind (configLines text))).map Token.slashed :=
    h ▸ List.mem_map_of_mem ht
  obtain ⟨t', ht', heq⟩ := List.mem_map.mp hslashed
  have hvalue : t'.value.map slash = t.value.map slash := congrArg Token.value heq
  refine hzeros t' (List.mem_filter.mp ht').1 ?_
  rw [← zero_mem_map_slash, hvalue, zero_mem_map_slash]
  exact hmem

/-- What holds of tokens without a keyword, and whatever the direction of slashes, holds of tokens exactly when it holds
    of the tokens of the lines. -/
theorem keyed_forall_iff {P : Token → Prop} (hslash : ∀ t, P t.slashed ↔ P t) (hnone : ∀ t, t.keyword = none → P t)
    {tokens' : List Token} (h : (keyed tokens).map Token.slashed = (keyed tokens').map Token.slashed) :
    (∀ t ∈ keyed tokens, P t) ↔ ∀ t ∈ tokens', P t := by
  have hmap : ∀ tokens' : List Token, (∀ t ∈ keyed tokens', P t) ↔ ∀ t ∈ (keyed tokens').map Token.slashed, P t := by
    intro tokens'
    rw [List.forall_mem_map]
    exact forall₂_congr fun t _ => (hslash t).symm
  rw [hmap, h, ← hmap]
  refine ⟨fun hk t ht => ?_, fun hk t ht => hk t (List.mem_filter.mp ht).1⟩
  by_cases hsome : t.keyword.isSome = true
  · exact hk t (List.mem_filter.mpr ⟨ht, hsome⟩)
  · exact hnone t (Option.not_isSome_iff_eq_none.mp hsome)

theorem Token.fits_none (t : Token) (h : t.keyword = none) : t.Fits szPath := by
  rw [Token.Fits, h]
  trivial

theorem Token.stored_none (t : Token) (h : t.keyword = none) : t.Stored szPath := ((t.fits_iff szPath).mp (t.fits_none h)).1

/-- The entries of the tokens of a text: the arrays behind their titles are intact exactly when the values of the text
    are stored, and all their strings end exactly when the values fit. -/
theorem entriesOf_intact
    (h : (keyed tokens).map Token.slashed = (keyed (lineTokens behind (configLines text))).map Token.slashed) :
    ((∀ e ∈ entriesOf szPath tokens, e.Intact) ↔ ∀ t ∈ lineTokens behind (configLines text), t.Stored szPath) ∧
    ((∀ e ∈ entriesOf szPath tokens, e.Terminated) ↔ ∀ t ∈ lineTokens behind (configLines text), t.Fits szPath) := by
  have hall : ∀ P : CONFIGENTRY → Prop, (∀ e ∈ entriesOf szPath tokens, P e) ↔
      AllEntries P ((keyed tokens).foldl (Token.apply szPath) ([], CONFIGENTRY.zero)) := by
    intro P
    rw [entriesOf, List.forall_mem_append, List.forall_mem_singleton, foldl_keyed]
    rfl
  obtain ⟨hintact, htitles⟩ := @entries_intact szPath (keyed tokens) ([], CONFIGENTRY.zero) CONFIGENTRY.zero_inv
    (keyed_zero h)
  obtain ⟨hzero, htitle⟩ := (CONFIGENTRY.terminated_iff _).mp CONFIGENTRY.zero_terminated
  have hstart : AllEntries CONFIGENTRY.Intact ([], CONFIGENTRY.zero) := ⟨List.forall_mem_nil _, hzero⟩
  have hstart' : AllEntries (fun e => e.title.Terminated) ([], CONFIGENTRY.zero) := ⟨List.forall_mem_nil _, htitle⟩
  rw [and_iff_right hstart] at hintact
  rw [and_iff_right hstart'] at htitles
  constructor
  · rw [hall, hintact]
    exact keyed_forall_iff (fun t => t.stored_slashed szPath) (fun t => t.stored_none) h
  · have hsplit : (∀ e ∈ entriesOf szPath tokens, e.Terminated) ↔ ∀ t ∈ keyed tokens, t.Fits szPath := by
      simp only [CONFIGENTRY.terminated_iff, forall_and, Token.fits_iff, hall, hintact, htitles]
    rw [hsplit]
    exact keyed_forall_iff (fun t => t.fits_slashed szPath) (fun t => t.fits_none) h

end Slashed

section Run

variable {szPath : Option (List UInt8)} {text after : List UInt8} {last : UInt8}

/-- A text that is not left, or has a NUL behind it, gives the entries of what is found in its lines, and marks one of
    them when there is a default line. -/
theorem parseConfig_read (szPath : Option (List UInt8)) (last : UInt8) (hread : StaysInside text ∨ 0 ∈ after) :
    ∃ founds entries mem,
      parseConfig (text.length + 1 + after.length) szPath (text ++ last :: after) text.length = .ok (entries, mem) ∧
      keyedFounds founds = keyedFounds (configFounds text after) ∧
      match lastDefault (configFounds text after) with
      | none => entries = entriesOf szPath (founds.map Found.token)
      | some found => ∃ d, entries = markDefault d (entriesOf szPath (founds.map Found.token)) ∧
          0 ∉ d ∧ (found.stays = true → d = found.token.value) ∧ (d = [] ↔ found.token.value = []) := by
  have hparse := parseConfig_founds (text.length + 1 + after.length) szPath text last after (by omega)
  obtain ⟨founds, hok, hkeyed⟩ := foundsOf_read hread
  rw [hok] at hparse
  obtain ⟨entries, mem, hrun, hentries⟩ := hparse
  rw [← lastDefault_keyed, hkeyed, lastDefault_keyed] at hentries
  exact ⟨founds, entries, mem, hrun, hkeyed, hentries⟩

/-- The arrays behind the titles are intact exactly when the values are stored, and the strings of the entries end
    inside their arrays exactly when the values fit. -/
theorem parseConfig_intact (hread : StaysInside text ∨ 0 ∈ after) {entries : List CONFIGENTRY} {mem : List UInt8}
    (hrun : parseConfig (text.length + 1 + after.length) szPath (text ++ last :: after) text.length = .ok (entries, mem)) :
    ((∀ e ∈ entries, e.Intact) ↔ ∀ t ∈ readTokens text after, t.Stored szPath) ∧
      ((∀ e ∈ entries, e.Terminated) ↔ ∀ t ∈ readTokens text after, t.Fits szPath) := by
  obtain ⟨founds, entries', mem', hrun', hkeyed, hentries⟩ := parseConfig_read szPath last hread
  rw [hrun'] at hrun
  cases hrun
  have hall := @entriesOf_intact szPath text _ _ (configFounds_slashed hkeyed)
  split at hentries
  · rw [hentries]
    exact hall
  · obtain ⟨d, hmark, -⟩ := hentries
    rw [hmark, markDefault_forall, markDefault_forall]
    · exact hall
    · exact fun e => ⟨fun ⟨ht, hp, hk, hi, ha⟩ => ⟨ht, hp, hk, hi, ha⟩, fun ⟨ht, hp, hk, hi, ha⟩ => ⟨ht, hp, hk, hi, ha⟩⟩
    · exact fun e => ⟨fun ⟨hp, hk, hi, ha⟩ => ⟨hp, hk, hi, ha⟩, fun ⟨hp, hk, hi, ha⟩ => ⟨hp, hk, hi, ha⟩⟩

end Run

/-- For every text in a buffer with one byte more, and every path: all loads and stores stay inside the buffer and the
    arrays, and all strings of the entries end there, exactly when the search for values stays inside the text and
    every value fits. -/
theorem config_in_bounds (text : List UInt8) (last : UInt8) (szPath : Option (List UInt8)) :
    (∃ entries mem, parseConfig (text.length + 1) szPath (text ++ [last]) text.length = .ok (entries, mem) ∧
      ∀ e ∈ entries, e.Terminated) ↔ StaysInside text ∧ ∀ t ∈ configTokens text, t.Fits szPath := by
  rw [← readTokens_buffer]
  constructor
  · rintro ⟨entries, mem, hrun, hterm⟩
    have hinside : StaysInside text := by
      by_contra hleaves
      have hparse := parseConfig_founds (text.length + 1) szPath text last [] (Nat.lt_succ_self text.length)
      obtain ⟨e, herror⟩ := foundsOf_leaves hleaves
      rw [herror, hrun] at hparse
      cases hparse
    exact ⟨hinside, (@parseConfig_intact szPath text [] last (Or.inl hinside) entries mem hrun).2.mp hterm⟩
  · rintro ⟨hinside, hfits⟩
    obtain ⟨-, entries, mem, hrun, -⟩ := @parseConfig_read text [] szPath last (Or.inl hinside)
    exact ⟨entries, mem, hrun, (@parseConfig_intact szPath text [] last (Or.inl hinside) entries mem hrun).2.mpr hfits⟩

/-- A text that ends with a newline: the last line is empty, and `ParseConfig` reads behind the NUL. -/
theorem newline_leaves_buffer :
    ¬ ∃ entries mem, parseConfig 9 none ([0x74, 0x69, 0x74, 0x6c, 0x65, 0x20, 0x61, 0x0a] ++ [0]) 8 =
      .ok (entries, mem) ∧ ∀ e ∈ entries, e.Terminated := by
  rintro ⟨entries, mem, hrun, -⟩
  have hfault : parseConfig 9 none ([0x74, 0x69, 0x74, 0x6c, 0x65, 0x20, 0x61, 0x0a] ++ [0]) 8 = .error .load := by
    decide +kernel
  rw [hfault] at hrun
  cases hrun

end Cromwell.Config
