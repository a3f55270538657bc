/-
Module: Cromwell.Http.Upload
Layer: Proofs
Purpose: What an upload is, independently of the scans of `handle_post`: a first line, the first blank line
  after it, a later occurrence of the first line, and the bytes between. The scans are shown to find
  exactly these places, and `handle_post` to accept exactly such a slice as long as none of its
  uninitialised locals, and no byte behind the body, decides.
Imports: Cromwell.Http.Server
Trusted boundary: human-reviewed specification (FirstLine, FirstBlank, Occurs, Upload)
Main exports: FirstLine, FirstBlank, Occurs, Upload, PostOk, handlePost_spec
-/
import Cromwell.Http.Server

namespace Cromwell.Http

open ByteMemory

/-! ### Bodies -/

/-- The first line ends at `blen`: what stands before is the boundary. -/
structure FirstLine (v : Nat → UInt8) (n blen : Nat) : Prop where
  lt : blen < n
  ends : v blen = 0x0a ∨ v blen = 0x0d
  before : ∀ x < blen, v x ≠ 0x0a ∧ v x ≠ 0x0d

/-- A blank line that is not the first line ends at `j`; carriage returns do not count. -/
def BlankAt (v : Nat → UInt8) (j : Nat) : Prop :=
  v j = 0x0a ∧ ∃ e < j, v e = 0x0a ∧ ∀ x, e < x → x < j → v x = 0x0d

/-- The first blank line after the first line ends at `j`. -/
structure FirstBlank (v : Nat → UInt8) (n j : Nat) : Prop where
  lt : j < n
  blank : BlankAt v j
  first : ∀ j' < j, ¬ BlankAt v j'

/-- The first `blen` bytes stand at `k` once more. -/
def Repeats (v : Nat → UInt8) (blen k : Nat) : Prop := ∀ x < blen, v (k + x) = v x

/-- They stand there within a body of `n` bytes. -/
def Occurs (v : Nat → UInt8) (n blen k : Nat) : Prop := k + blen ≤ n ∧ Repeats v blen k

/-- The body has an upload of `expected` bytes from `start` on: it begins right after the first blank line
    and ends two bytes before a later occurrence of the boundary. -/
def Upload (v : Nat → UInt8) (n expected start : Nat) : Prop :=
  ∃ blen j, FirstLine v n blen ∧ FirstBlank v n j ∧ start = j + 1 ∧
    Occurs v n blen (start + expected + 2)

theorem FirstLine.unique {v : Nat → UInt8} {n b b' : Nat} (h : FirstLine v n b) (h' : FirstLine v n b') :
    b = b' := by
  rcases Nat.lt_trichotomy b b' with hlt | heq | hgt
  · rcases h.ends with he | he
    · exact absurd he (h'.before b hlt).1
    · exact absurd he (h'.before b hlt).2
  · exact heq
  · rcases h'.ends with he | he
    · exact absurd he (h.before b' hgt).1
    · exact absurd he (h.before b' hgt).2

theorem FirstLine.congr {v w : Nat → UInt8} {n b : Nat} (agree : ∀ i < n, v i = w i)
    (h : FirstLine v n b) : FirstLine w n b where
  lt := h.lt
  ends := by
    rw [← agree b h.lt]
    exact h.ends
  before := by
    intro x hx
    rw [← agree x (Nat.lt_trans hx h.lt)]
    exact h.before x hx

theorem BlankAt.congr {v w : Nat → UInt8} {j : Nat} (agree : ∀ i ≤ j, v i = w i) (h : BlankAt v j) :
    BlankAt w j := by
  obtain ⟨hj, e, hej, he, hcr⟩ := h
  refine ⟨agree j (Nat.le_refl j) ▸ hj, e, hej, agree e hej.le ▸ he, fun x hex hxj => ?_⟩
  rw [← agree x hxj.le]
  exact hcr x hex hxj

theorem FirstBlank.congr {v w : Nat → UInt8} {n j : Nat} (agree : ∀ i < n, v i = w i)
    (h : FirstBlank v n j) : FirstBlank w n j where
  lt := h.lt
  blank := h.blank.congr fun i hi => agree i (Nat.lt_of_le_of_lt hi h.lt)
  first := by
    intro j' hj' hblank
    refine h.first j' hj' (hblank.congr fun i hi => ?_)
    exact (agree i (by have := h.lt; omega)).symm

/-- Whether there is an upload depends on the body only, not on what lies behind it. -/
theorem Upload.congr {v w : Nat → UInt8} {n expected start : Nat} (agree : ∀ i < n, v i = w i)
    (h : Upload v n expected start) : Upload w n expected start := by
  obtain ⟨blen, j, hline, hblank, hstart, hfits, hrep⟩ := h
  refine ⟨blen, j, hline.congr agree, hblank.congr agree, hstart, hfits, fun x hx => ?_⟩
  rw [← agree x (by have := hline.lt; omega), ← agree _ (by omega)]
  exact hrep x hx

/-! ### The scans -/

/-- The memory seen from an address. -/
def view (m : Mem) (postdata : Nat) : Nat → UInt8 := fun i => m (u32 (postdata + i))

theorem findLineEnd_spec (m : Mem) (pd n : Nat) : ∀ (remaining i : Nat), i + remaining = n →
    (∀ x < i, view m pd x ≠ 0x0a ∧ view m pd x ≠ 0x0d) →
    match findLineEnd m pd remaining i with
    | some blen => FirstLine (view m pd) n blen
    | none => ∀ x < n, view m pd x ≠ 0x0a ∧ view m pd x ≠ 0x0d
  | 0, i, hsum, before => by
      have hi : i = n := by omega
      simpa only [findLineEnd, hi] using hi ▸ before
  | remaining + 1, i, hsum, before => by
      simp only [findLineEnd]
      by_cases hends : m (u32 (pd + i)) = 0x0a ∨ m (u32 (pd + i)) = 0x0d
      · rw [if_pos hends]
        exact ⟨by omega, hends, before⟩
      · rw [if_neg hends]
        refine findLineEnd_spec m pd n remaining (i + 1) (by omega) fun x hx => ?_
        rcases Nat.lt_succ_iff_lt_or_eq.mp hx with h | rfl
        · exact before x h
        · exact not_or.mp hends

/-- What `ncnt` remembers: the last byte before `i` that is not a carriage return is a line feed. -/
def AfterFeed (v : Nat → UInt8) (i : Nat) : Prop :=
  ∃ e < i, v e = 0x0a ∧ ∀ x, e < x → x < i → v x = 0x0d

theorem afterFeed_cr {v : Nat → UInt8} {i : Nat} (h : v i = 0x0d) : AfterFeed v (i + 1) ↔ AfterFeed v i := by
  constructor
  · rintro ⟨e, he, hfeed, hcr⟩
    have hne : e ≠ i := by
      rintro rfl
      rw [h] at hfeed
      exact absurd hfeed (by decide)
    exact ⟨e, by omega, hfeed, fun x hx hxi => hcr x hx (by omega)⟩
  · rintro ⟨e, he, hfeed, hcr⟩
    refine ⟨e, by omega, hfeed, fun x hx hxi => ?_⟩
    rcases Nat.lt_succ_iff_lt_or_eq.mp hxi with hlt | rfl
    · exact hcr x hx hlt
    · exact h

theorem afterFeed_feed {v : Nat → UInt8} {i : Nat} (h : v i = 0x0a) : AfterFeed v (i + 1) :=
  ⟨i, Nat.lt_succ_self i, h, fun x hx hxi => by omega⟩

theorem not_afterFeed_other {v : Nat → UInt8} {i : Nat} (hcr : v i ≠ 0x0d) (hlf : v i ≠ 0x0a) :
    ¬ AfterFeed v (i + 1) := by
  rintro ⟨e, he, hfeed, hall⟩
  rcases Nat.lt_succ_iff_lt_or_eq.mp he with hlt | rfl
  · exact hcr (hall i hlt (Nat.lt_succ_self i))
  · exact hlf hfeed

theorem findBlank_spec (m : Mem) (pd n : Nat) : ∀ (remaining i ncnt : Nat), i + remaining = n →
    (ncnt = 0 ∧ ¬ AfterFeed (view m pd) i ∨ ncnt = 1 ∧ AfterFeed (view m pd) i) →
    (∀ j < i, ¬ BlankAt (view m pd) j) →
    match findBlank m pd remaining i ncnt with
    | some j => FirstBlank (view m pd) n j ∧ i ≤ j
    | none => ∀ j < n, ¬ BlankAt (view m pd) j
  | 0, i, ncnt, hsum, _, before => by
      have hi : i = n := by omega
      simpa only [findBlank, hi] using hi ▸ before
  | remaining + 1, i, ncnt, hsum, hcnt, before => by
      -- the step: from `i` to `i + 1` with the new count, unless a blank line ends at `i`
      have next : ∀ ncnt', (ncnt' = 0 ∧ ¬ AfterFeed (view m pd) (i + 1) ∨
          ncnt' = 1 ∧ AfterFeed (view m pd) (i + 1)) → ¬ BlankAt (view m pd) i →
          match findBlank m pd remaining (i + 1) ncnt' with
          | some j => FirstBlank (view m pd) n j ∧ i ≤ j
          | none => ∀ j < n, ¬ BlankAt (view m pd) j := by
        intro ncnt' hcnt' hno
        have ih := findBlank_spec m pd n remaining (i + 1) ncnt' (by omega) hcnt' fun j hj => by
          rcases Nat.lt_succ_iff_lt_or_eq.mp hj with h | rfl
          · exact before j h
          · exact hno
        cases hfind : findBlank m pd remaining (i + 1) ncnt' with
        | none =>
            rw [hfind] at ih
            exact ih
        | some j =>
            rw [hfind] at ih
            exact ⟨ih.1, by have := ih.2; omega⟩
      simp only [findBlank]
      by_cases hcr : m (u32 (pd + i)) = 0x0d
      · rw [if_pos hcr]
        refine next ncnt ?_ fun hblank => ?_
        · rwa [afterFeed_cr (v := view m pd) hcr]
        · rw [BlankAt, show view m pd i = 0x0d from hcr] at hblank
          exact absurd hblank.1 (by decide)
      · rw [if_neg hcr]
        by_cases hlf : m (u32 (pd + i)) = 0x0a
        · rw [if_pos hlf]
          rcases hcnt with ⟨rfl, hno⟩ | ⟨rfl, hyes⟩
          · rw [if_neg (by decide)]
            exact next 1 (Or.inr ⟨rfl, afterFeed_feed hlf⟩) fun hblank => hno hblank.2
          · rw [if_pos rfl]
            exact ⟨⟨by omega, ⟨hlf, hyes⟩, before⟩, Nat.le_refl i⟩
        · rw [if_neg hlf]
          exact next 0 (Or.inl ⟨rfl, not_afterFeed_other hcr hlf⟩) fun hblank => hlf hblank.1

theorem memcmpEq_iff (m : Mem) : ∀ (count a b : Nat),
    memcmpEq m a b count = true ↔ ∀ x < count, m (u32 (a + x)) = m (u32 (b + x))
  | 0, a, b => by simp [memcmpEq]
  | count + 1, a, b => by
      simp only [memcmpEq, Bool.and_eq_true, beq_iff_eq, memcmpEq_iff m count]
      constructor
      · rintro ⟨h0, hrest⟩ x hx
        cases x with
        | zero => exact h0
        | succ x =>
            have h := hrest x (by omega)
            rwa [show a + (x + 1) = a + 1 + x by omega, show b + (x + 1) = b + 1 + x by omega]
      · intro h
        refine ⟨h 0 (by omega), fun x hx => ?_⟩
        have h' := h (x + 1) (by omega)
        rwa [show a + 1 + x = a + (x + 1) by omega, show b + 1 + x = b + (x + 1) by omega]

/-- The third scan finds the first place, at `lo` or later. -/
theorem findBoundary_spec (m : Mem) (pd blen n lo : Nat) : ∀ (remaining i : Nat), i + remaining = n →
    lo ≤ i → (∀ k, lo ≤ k → k < i → ¬ Repeats (view m pd) blen k) →
    match findBoundary m pd blen remaining i with
    | some k => lo ≤ k ∧ k < n ∧ Repeats (view m pd) blen k ∧ ∀ k', lo ≤ k' → k' < k → ¬ Repeats (view m pd) blen k'
    | none => ∀ k, lo ≤ k → k < n → ¬ Repeats (view m pd) blen k
  | 0, i, hsum, _, before => by
      have hi : i = n := by omega
      simpa only [findBoundary, hi] using hi ▸ before
  | remaining + 1, i, hsum, hlo, before => by
      have hiff : memcmpEq m pd (pd + i) blen = true ↔ Repeats (view m pd) blen i := by
        rw [memcmpEq_iff]
        constructor
        · intro h x hx
          rw [view, view, ← Nat.add_assoc]
          exact (h x hx).symm
        · intro h x hx
          rw [Nat.add_assoc]
          exact (h x hx).symm
      simp only [findBoundary]
      by_cases hmatch : memcmpEq m pd (pd + i) blen = true
      · rw [if_pos hmatch]
        exact ⟨hlo, by omega, hiff.mp hmatch, before⟩
      · rw [if_neg hmatch]
        refine findBoundary_spec m pd blen n lo remaining (i + 1) (by omega) (by omega) fun k hk hki => ?_
        rcases Nat.lt_succ_iff_lt_or_eq.mp hki with h | rfl
        · exact before k hk h
        · exact fun h => hmatch (hiff.mpr h)

/-! ### `handle_post` -/

/-- Two pointers that `handle_post` would not take for an image of the expected size. -/
def Harmless (expected start theEnd : Nat) : Prop :=
  start = 0 ∨ theEnd = 0 ∨ ((theEnd : Int) - 2 - start).bmod (2 ^ 32) ≠ expected

/-- The bodies that `handle_post` judges by their contents. `v` is the memory from `postdata` on, also behind
    the body. -/
structure PostOk (expected n : Nat) (v : Nat → UInt8) (postdata start theEnd : Nat) : Prop where
  /-- A first line that ends with a bare line feed is not followed by a blank line, which the scan would
      miss because that line feed has been overwritten. -/
  secondLine : ∀ blen, FirstLine v n blen → v blen = 0x0a →
    ∀ j, blen < j → j < n → v j = 0x0a → ∃ x, blen < x ∧ x < j ∧ v x ≠ 0x0d
  /-- Without a blank line the two uninitialised locals do not pass for an image. -/
  noBlank : ∀ blen, FirstLine v n blen → (∀ j < n, ¬ BlankAt v j) → Harmless expected start theEnd
  /-- Without a boundary the uninitialised `end` does not fit. -/
  noBoundary : ∀ blen j, FirstLine v n blen → FirstBlank v n j →
    (∀ k, j ≤ k → k < n → ¬ Repeats v blen k) → Harmless expected (postdata + j + 1) theEnd
  /-- No boundary is completed by bytes behind the body at the place that fits. -/
  overRead : ∀ blen j, FirstLine v n blen → FirstBlank v n j → j + 1 + expected + 2 < n →
    n < j + 1 + expected + 2 + blen → ¬ Repeats v blen (j + 1 + expected + 2)
  /-- The image does not reach over `0x100000` from below, where it is copied to. -/
  apart : ∀ start, Upload v n expected start →
    ¬ (postdata + start < 0x100000 ∧ 0x100000 < postdata + start + expected)

/-- The fields that `handle_post` leaves alone. -/
structure SamePost (hs hs' : HttpState) : Prop where
  postdata : hs'.postdata = hs.postdata
  postlen : hs'.postlen = hs.postlen
  postpos : hs'.postpos = hs.postpos

/-- What a call of `handle_post` leaves behind: nothing accepted, or the upload of the body. -/
def Accepted (v : Nat → UInt8) (n expected : Nat) (hs : HttpState) (m : Mem) : Prop :=
  hs.biosStart = 0 ∨ ∃ start, Upload v n expected start ∧ hs.biosStart = hs.postdata + start ∧
    hs.biosLen = expected ∧ ∀ i, start ≤ i → i < n → view m hs.postdata i = v i

section HandlePost

variable {files : Nat → Nat} {expected n pd blen : Nat} {ans : Answers} {hs : HttpState} {m : Mem}

theorem judge_same (start theEnd : Nat) : SamePost hs (judge files expected start theEnd hs).2 := by
  unfold judge
  split
  · exact ⟨rfl, rfl, rfl⟩
  · simp only [HttpState.select]
    split
    · exact ⟨rfl, rfl, rfl⟩
    · exact ⟨rfl, rfl, rfl⟩

theorem judge_harmless {start theEnd : Nat} (clean : hs.biosStart = 0) (nonzero : start ≠ 0)
    (harmless : Harmless expected start theEnd) :
    (judge files expected start theEnd hs).2.biosStart = 0 := by
  unfold judge
  rcases harmless with h | h | h
  · exact absurd h nonzero
  · rw [if_pos h]
    exact clean
  · by_cases hend : theEnd = 0
    · rw [if_pos hend]
      exact clean
    · rw [if_neg hend]
      simp only [if_pos h]
      exact clean

variable (files expected hs) in
/-- With both places found in the body, only a slice of the right size is taken. -/
theorem judge_places {j k : Nat} (clean : hs.biosStart = 0) (hpd : 0 < pd) (hj : j < n) (hk : k < n)
    (hjk : j ≤ k) (room : pd + n < 2 ^ 32) (hn : n < 2 ^ 31) :
    let hs' := (judge files expected (u32 (pd + j + 1)) (u32 (pd + k)) hs).2
    hs'.biosStart = 0 ∨
      hs'.biosStart = pd + (j + 1) ∧ hs'.biosLen = expected ∧ k = j + 1 + expected + 2 := by
  have hstart : u32 (pd + j + 1) = pd + j + 1 := Nat.mod_eq_of_lt (by omega)
  have hend : u32 (pd + k) = pd + k := Nat.mod_eq_of_lt (by omega)
  have hlen : (((pd + k : Nat) : Int) - 2 - (pd + j + 1 : Nat)).bmod (2 ^ 32) = (k : Int) - j - 3 := by
    rw [Int.bmod_eq_of_le (by omega) (by omega)]
    omega
  simp only [judge, hstart, hend, hlen]
  rw [if_neg (by omega)]
  by_cases hfits : (k : Int) - j - 3 = expected
  · rw [if_neg (by simpa using hfits)]
    exact Or.inr ⟨rfl, hfits, by omega⟩
  · rw [if_pos hfits]
    exact Or.inl clean

/-- The memory seen from the body after the first line end has been overwritten. -/
theorem view_store (room : pd + n < 2 ^ 32) (hblen : blen < n) {i : Nat} (hi : i < 2 ^ 32) :
    view (m.store (u32 (pd + blen)) 0) pd i = if i = blen then 0 else view m pd i := by
  by_cases h : i = blen
  · rw [if_pos h, h]
    exact Mem.store_self _ _ _
  · rw [if_neg h]
    refine Mem.store_of_ne fun heq => h ?_
    simp only [u32] at heq
    omega

theorem blankAt_store (room : pd + n < 2 ^ 32) (line : FirstLine (view m pd) n blen)
    (second : view m pd blen = 0x0a → ∀ j, blen < j → j < n → view m pd j = 0x0a →
      ∃ x, blen < x ∧ x < j ∧ view m pd x ≠ 0x0d) {j : Nat} (hj : j < n) :
    BlankAt (view (m.store (u32 (pd + blen)) 0) pd) j ↔ BlankAt (view m pd) j := by
  have hview := fun {i : Nat} (hi : i < n) =>
    view_store (m := m) room line.lt (show i < 2 ^ 32 by omega)
  have hkeep : ∀ {i : Nat} {c : UInt8}, i < n → c ≠ 0 →
      view (m.store (u32 (pd + blen)) 0) pd i = c → view m pd i = c := by
    intro i c hi hc h
    rw [hview hi] at h
    by_cases hb : i = blen
    · rw [if_pos hb] at h
      exact absurd h.symm hc
    · rwa [if_neg hb] at h
  constructor
  · rintro ⟨hlf, e, he, hfeed, hcr⟩
    refine ⟨hkeep hj (by decide) hlf, e, he, hkeep (by omega) (by decide) hfeed, fun x hx hxj => ?_⟩
    exact hkeep (by omega) (by decide) (hcr x hx hxj)
  · rintro ⟨hlf, e, he, hfeed, hcr⟩
    have hle : blen ≤ e := by
      by_contra hlt
      exact (line.before e (by omega)).1 hfeed
    -- the line feed before the blank line is not the one that was overwritten
    have hne : blen ≠ e := by
      rintro rfl
      obtain ⟨x, hx, hxj, hx13⟩ := second hfeed j he hj hlf
      exact hx13 (hcr x hx hxj)
    refine ⟨?_, e, he, ?_, fun x hx hxj => ?_⟩
    · rw [hview hj, if_neg (by omega)]
      exact hlf
    · rw [hview (by omega), if_neg (by omega)]
      exact hfeed
    · rw [hview (by omega), if_neg (by omega)]
      exact hcr x hx hxj

theorem repeats_store (room : pd + n < 2 ^ 32) (hn : n < 2 ^ 31) (hblen : blen < n) {k : Nat}
    (lo : blen < k) (hi : k < n) :
    Repeats (view (m.store (u32 (pd + blen)) 0) pd) blen k ↔ Repeats (view m pd) blen k := by
  have hsame : ∀ x < blen,
      (view (m.store (u32 (pd + blen)) 0) pd (k + x) = view (m.store (u32 (pd + blen)) 0) pd x ↔
        view m pd (k + x) = view m pd x) := by
    intro x hx
    rw [view_store room hblen (show k + x < 2 ^ 32 by omega), if_neg (by omega),
      view_store room hblen (show x < 2 ^ 32 by omega), if_neg (by omega)]
  exact forall₂_congr hsame

/-- The ways through `handle_post`, by what the body holds; `hs₅` has the error page selected. -/
inductive Judged (files : Nat → Nat) (expected n : Nat) (ans : Answers) (v : Nat → UInt8)
    (hs₅ : HttpState) : HttpState → Prop where
  | noLine (none : ∀ x < n, v x ≠ 0x0a ∧ v x ≠ 0x0d) : Judged files expected n ans v hs₅ hs₅
  | noStart (blen : Nat) (line : FirstLine v n blen) (none : ∀ j < n, ¬ BlankAt v j)
      (zero : ans.start = 0) : Judged files expected n ans v hs₅ hs₅
  | noBlank (blen : Nat) (line : FirstLine v n blen) (none : ∀ j < n, ¬ BlankAt v j)
      (nonzero : ans.start ≠ 0) :
      Judged files expected n ans v hs₅ (judge files expected ans.start ans.theEnd hs₅).2
  | noBoundary (blen j : Nat) (line : FirstLine v n blen) (blank : FirstBlank v n j) (lt : blen < j)
      (none : ∀ k, j ≤ k → k < n → ¬ Repeats v blen k) :
      Judged files expected n ans v hs₅ (judge files expected (u32 (hs₅.postdata + j + 1)) ans.theEnd hs₅).2
  | found (blen j k : Nat) (line : FirstLine v n blen) (blank : FirstBlank v n j) (lt : blen < j)
      (le : j ≤ k) (inside : k < n) (again : Repeats v blen k) :
      Judged files expected n ans v hs₅
        (judge files expected (u32 (hs₅.postdata + j + 1)) (u32 (hs₅.postdata + k)) hs₅).2

/-- The memory after `handle_post` is the old one but for the first line end. -/
def LineCut (v : Nat → UInt8) (n pd : Nat) (m m' : Mem) : Prop :=
  m' = m ∨ ∃ blen, FirstLine v n blen ∧ m' = m.store (u32 (pd + blen)) 0

variable (files expected ans) in
theorem handlePost_cases (hlen : hs.postlen = n) (lo : 0 < hs.postdata)
    (room : hs.postdata + n < 2 ^ 32) (hn : n < 2 ^ 31)
    (secondLine : ∀ blen, FirstLine (view m hs.postdata) n blen → view m hs.postdata blen = 0x0a →
      ∀ j, blen < j → j < n → view m hs.postdata j = 0x0a →
        ∃ x, blen < x ∧ x < j ∧ view m hs.postdata x ≠ 0x0d) :
    Judged files expected n ans (view m hs.postdata) (hs.select files 5)
        (handlePost files expected ans hs m).2.1 ∧
      LineCut (view m hs.postdata) n hs.postdata m (handlePost files expected ans hs m).2.2 := by
  have htoNat : (hs.select files 5).postlen.toNat = n := by
    simp only [HttpState.select]
    omega
  have hpd : (hs.select files 5).postdata = hs.postdata := rfl
  have hline := findLineEnd_spec m hs.postdata n n 0 (Nat.zero_add n)
    fun x hx => absurd hx (Nat.not_lt_zero x)
  simp only [handlePost, htoNat, hpd]
  cases hfind : findLineEnd m hs.postdata n 0 with
  | none =>
      rw [hfind] at hline
      exact ⟨.noLine hline, Or.inl rfl⟩
  | some blen =>
      rw [hfind] at hline
      have hblen : blen < n := hline.lt
      simp only []
      have hcut : LineCut (view m hs.postdata) n hs.postdata m (m.store (u32 (hs.postdata + blen)) 0) :=
        Or.inr ⟨blen, hline, rfl⟩
      generalize hm' : m.store (u32 (hs.postdata + blen)) 0 = m' at hcut ⊢
      have hblankIff : ∀ {j : Nat}, j < n →
          (BlankAt (view m' hs.postdata) j ↔ BlankAt (view m hs.postdata) j) := fun hj =>
        hm' ▸ blankAt_store room hline (secondLine blen hline) hj
      have hbefore : ∀ e < blen, view m' hs.postdata e ≠ 0x0a := by
        intro e he hfeed
        rw [← hm', view_store room hblen (by omega), if_neg (by omega)] at hfeed
        exact (hline.before e he).1 hfeed
      have hblank := findBlank_spec m' hs.postdata n (n - blen) blen 0 (by omega)
        (Or.inl ⟨rfl, fun h => by obtain ⟨e, he, hfeed, -⟩ := h; exact hbefore e he hfeed⟩)
        fun j hj h => hbefore j hj h.1
      cases hfindB : findBlank m' hs.postdata (n - blen) blen 0 with
      | none =>
          rw [hfindB] at hblank
          have hno : ∀ j < n, ¬ BlankAt (view m hs.postdata) j :=
            fun j hj h => hblank j hj ((hblankIff hj).mpr h)
          by_cases hzero : ans.start = 0
          · simp only [if_pos hzero]
            exact ⟨.noStart blen hline hno hzero, hcut⟩
          · simp only [if_neg hzero]
            exact ⟨.noBlank blen hline hno hzero, hcut⟩
      | some j =>
          rw [hfindB] at hblank
          have hj : j < n := hblank.1.lt
          have hfirst : FirstBlank (view m hs.postdata) n j :=
            ⟨hj, (hblankIff hj).mp hblank.1.blank, fun j' hj' h =>
              hblank.1.first j' hj' ((hblankIff (by omega)).mpr h)⟩
          have hblenj : blen < j := by
            obtain ⟨-, e, he, hfeed, -⟩ := hblank.1.blank
            by_contra hle
            exact hbefore e (by omega) hfeed
          have hstart : u32 (hs.postdata + j + 1) ≠ 0 := by
            rw [u32, Nat.mod_eq_of_lt (by omega)]
            omega
          have hrepIff : ∀ {k : Nat}, j ≤ k → k < n →
              (Repeats (view m' hs.postdata) blen k ↔ Repeats (view m hs.postdata) blen k) :=
            fun hk hkn => hm' ▸ repeats_store room hn hblen (by omega) hkn
          have hbound := findBoundary_spec m' hs.postdata blen n j (n - j) j (by omega) (Nat.le_refl j)
            fun k hk hkj => absurd hkj (by omega)
          simp only [if_neg hstart]
          cases hfindK : findBoundary m' hs.postdata blen (n - j) j with
          | none =>
              rw [hfindK] at hbound
              exact ⟨.noBoundary blen j hline hfirst hblenj
                fun k hk hkn h => hbound k hk hkn ((hrepIff hk hkn).mpr h), hcut⟩
          | some k =>
              rw [hfindK] at hbound
              obtain ⟨hjk, hkn, hrep, -⟩ := hbound
              exact ⟨.found blen j k hline hfirst hblenj hjk hkn ((hrepIff hjk hkn).mp hrep), hcut⟩

theorem Judged.same {v : Nat → UInt8} {hs₅ hs' : HttpState}
    (h : Judged files expected n ans v hs₅ hs') : SamePost hs₅ hs' := by
  cases h with
  | noLine _ => exact ⟨rfl, rfl, rfl⟩
  | noStart _ _ _ _ => exact ⟨rfl, rfl, rfl⟩
  | noBlank _ _ _ _ => exact judge_same _ _
  | noBoundary _ _ _ _ _ _ => exact judge_same _ _
  | found _ _ _ _ _ _ _ _ _ => exact judge_same _ _

/-- After the first line everything is as it was received. -/
theorem LineCut.view_eq {v : Nat → UInt8} {m' : Mem} {i : Nat} (cut : LineCut v n pd m m')
    (room : pd + n < 2 ^ 32) (line : FirstLine v n blen) (lo : blen < i) (hi : i < n) :
    view m' pd i = view m pd i := by
  rcases cut with rfl | ⟨blen', line', rfl⟩
  · rfl
  · have heq : blen' = blen := line'.unique line
    rw [view_store room line'.lt (by omega), if_neg (by omega)]

variable (files ans hs m) in
/-- `handle_post` accepts an upload of the expected size or nothing. -/
theorem handlePost_spec (hlen : hs.postlen = n) (lo : 0 < hs.postdata)
    (room : hs.postdata + n < 2 ^ 32) (hn : n < 2 ^ 31) (clean : hs.biosStart = 0)
    (ok : PostOk expected n (view m hs.postdata) hs.postdata ans.start ans.theEnd) :
    SamePost hs (handlePost files expected ans hs m).2.1 ∧
      Accepted (view m hs.postdata) n expected (handlePost files expected ans hs m).2.1
        (handlePost files expected ans hs m).2.2 := by
  obtain ⟨judged, cut⟩ := handlePost_cases files expected ans hlen lo room hn ok.secondLine
  generalize handlePost files expected ans hs m = r at judged cut
  obtain ⟨code, hs', m'⟩ := r
  have hsame : SamePost hs hs' := ⟨judged.same.postdata, judged.same.postlen, judged.same.postpos⟩
  refine ⟨hsame, ?_⟩
  cases judged with
  | noLine none => exact Or.inl clean
  | noStart _ _ _ _ => exact Or.inl clean
  | noBlank blen line none nonzero =>
      exact Or.inl (judge_harmless clean nonzero (ok.noBlank blen line none))
  | noBoundary blen j line blank lt none =>
      have hstart : u32 (hs.postdata + j + 1) = hs.postdata + j + 1 :=
        Nat.mod_eq_of_lt (by have := blank.lt; omega)
      have hharmless := ok.noBoundary blen j line blank none
      rw [← hstart] at hharmless
      exact Or.inl (judge_harmless clean (by simp only [HttpState.select]; omega) hharmless)
  | found blen j k line blank lt le inside again =>
      rcases judge_places files expected (hs.select files 5) clean lo blank.lt
        inside le room hn with h | ⟨hbios, hlen', rfl⟩
      · exact Or.inl h
      · have hin : j + 1 + expected + 2 + blen ≤ n := by
          by_contra hover
          exact ok.overRead blen j line blank inside (by omega) again
        refine Or.inr ⟨j + 1, ⟨blen, j, line, blank, rfl, hin, again⟩, ?_, hlen', fun i hi hin' => ?_⟩
        · rw [hsame.postdata]
          exact hbios
        · rw [hsame.postdata]
          exact cut.view_eq room line (by omega) hin'

end HandlePost

end Cromwell.Http
