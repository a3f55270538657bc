/-
Module: Cromwell.Gzip.HuftTables
Layer: Proofs
Purpose: The tables `huft_build` makes decode the canonical code. The words of the code lie side by side in `[0, 2^g)`,
  shortest first, and the loop moves a position `A` through this interval: the source's `i` is `A` with its `g` bits
  reversed, a table covers the words with one beginning, and an entry is written when `A` reaches the first number
  it stands for. So no entry is written twice, and what leads to a word stays as it is.
Imports: Cromwell.Gzip.Huft, Cromwell.Lib.Canonical
Trusted boundary: none
Main exports: Reach, Yields, Build.Sound, Build.openTable_spec, Build.placeCode_spec, Build.generate_spec
-/
import Cromwell.Gzip.Huft
import Cromwell.Lib.Canonical

namespace Cromwell.Gzip

open BitString Canonical

/-! ### Looking a word up -/

/-- On the bits of `B` the walk from the first table comes to table `t` with `w` bits read and `j` to look at. -/
inductive Reach (tables : Tables) (l B : Nat) : Nat → Nat → Nat → Prop where
  | root : Reach tables l B 0 0 l
  | step {t w j : Nat} : Reach tables l B t w j →
      16 < (tables.at t (B / 2 ^ w % 2 ^ j)).e →
      (tables.at t (B / 2 ^ w % 2 ^ j)).e ≤ 16 + l →
      0 < (tables.at t (B / 2 ^ w % 2 ^ j)).b →
      (tables.at t (B / 2 ^ w % 2 ^ j)).b ≤ j →
      (tables.at t (B / 2 ^ w % 2 ^ j)).b = l →
      Reach tables l B (tables.at t (B / 2 ^ w % 2 ^ j)).v (w + (tables.at t (B / 2 ^ w % 2 ^ j)).b)
        ((tables.at t (B / 2 ^ w % 2 ^ j)).e - 16)

/-- On the bits of `B` the walk comes to the entry `r`, with `w` bits read before it. -/
def Yields (tables : Tables) (l B : Nat) (r : Huft) (w : Nat) : Prop :=
  ∃ t j, Reach tables l B t w j ∧ tables.at t (B / 2 ^ w % 2 ^ j) = r ∧ 0 < r.b ∧ r.b ≤ j

/-- Entries that were written stay as they are. -/
def Extends (old new : Tables) : Prop :=
  ∀ t i, 0 < (old.at t i).b → new.at t i = old.at t i

theorem Extends.refl (tables : Tables) : Extends tables tables := fun _ _ _ => rfl

theorem Extends.trans {a b c : Tables} (hab : Extends a b) (hbc : Extends b c) : Extends a c := by
  intro t i h
  have hb : b.at t i = a.at t i := hab t i h
  rw [hbc t i (by rwa [hb]), hb]

theorem Reach.mono {old new : Tables} (h : Extends old new) {l B t w j : Nat} (hr : Reach old l B t w j) :
    Reach new l B t w j := by
  induction hr with
  | root => exact .root
  | @step t w j _ he hle hb hbj hbl ih =>
      have hsame := h t (B / 2 ^ w % 2 ^ j) hb
      have hnext := Reach.step ih (by rwa [hsame]) (by rwa [hsame]) (by rwa [hsame]) (by rwa [hsame]) (by rwa [hsame])
      rwa [hsame] at hnext

theorem Yields.mono {old new : Tables} (h : Extends old new) {l B w : Nat} {r : Huft} (hy : Yields old l B r w) :
    Yields new l B r w := by
  obtain ⟨t, j, hreach, hat, hb, hbj⟩ := hy
  exact ⟨t, j, hreach.mono h, by rw [h t _ (by rwa [hat]), hat], hb, hbj⟩

/-- No table is looked at with more bits than the first one. -/
theorem Reach.bits_le {tables : Tables} {l B t w j : Nat} (hr : Reach tables l B t w j) : j ≤ l := by
  cases hr with
  | root => exact le_rfl
  | step _ _ hle _ _ _ => omega

/-- A word that is not longer than what the first table is looked at with is in the first table. -/
theorem Yields.first {tables : Tables} {l B w : Nat} {r : Huft} (hy : Yields tables l B r w) (hw : w + r.b ≤ l) :
    w = 0 ∧ tables.at 0 (B % 2 ^ l) = r := by
  obtain ⟨t, j, hreach, hat, hb, -⟩ := hy
  cases hreach with
  | root => exact ⟨rfl, by rwa [Nat.pow_zero, Nat.div_one] at hat⟩
  | step _ _ _ _ _ hbl => omega

/-! ### Entries of changed tables -/

theorem at_append_of_lt {tables : Tables} {q : List Huft} {t : Nat} (h : t < tables.length) (i : Nat) :
    Tables.at (tables ++ [q]) t i = tables.at t i := by
  rw [Tables.at, Tables.at, List.getD_append _ _ _ _ h]

/-- A fresh table has nothing in it. -/
theorem at_append_fresh (tables : Tables) (z i : Nat) :
    Tables.at (tables ++ [List.replicate z default]) tables.length i = default := by
  have hq : (tables ++ [List.replicate z (default : Huft)]).getD tables.length [] = List.replicate z default := by
    rw [List.getD_append_right _ _ _ _ le_rfl, Nat.sub_self]
    rfl
  rw [Tables.at, hq, List.getD_eq_getElem?_getD]
  by_cases hi : i < z
  · rw [List.getElem?_replicate, if_pos hi]
    rfl
  · rw [List.getElem?_replicate, if_neg hi]
    rfl

theorem getD_modify_self {tables : Tables} {t : Nat} (h : t < tables.length) (f : List Huft → List Huft) :
    (tables.modify t f).getD t [] = f (tables.getD t []) := by
  rw [List.getD_eq_getElem _ _ (by rwa [List.length_modify]), List.getD_eq_getElem _ _ h, List.getElem_modify,
    if_pos rfl]

theorem getD_modify_of_ne (tables : Tables) {t t' : Nat} (h : t' ≠ t) (f : List Huft → List Huft) :
    (tables.modify t f).getD t' [] = tables.getD t' [] := by
  rw [List.getD_eq_getElem?_getD, List.getD_eq_getElem?_getD, List.getElem?_modify]
  simp [h.symm]

namespace Build

/-! ### The stride of one word -/

theorem length_strideFill (r : Huft) (f z : Nat) :
    ∀ (rounds j : Nat) (q : List Huft), (strideFill r f z rounds j q).length = q.length := by
  intro rounds
  induction rounds with
  | zero => exact fun _ _ => rfl
  | succ rounds ih =>
      intro j q
      rw [strideFill]
      split
      · rw [ih, List.length_set]
      · rfl

/-- Every `f`-th entry from `j` on is the new one, all others are the old ones. -/
theorem getD_strideFill (r : Huft) {f z : Nat} (hf : 0 < f) :
    ∀ (rounds j : Nat) (q : List Huft) (i : Nat), q.length = z → z ≤ j + rounds →
      (strideFill r f z rounds j q).getD i default =
        if j ≤ i ∧ i < z ∧ (i - j) % f = 0 then r else q.getD i default := by
  intro rounds
  induction rounds with
  | zero =>
      intro j q i hlen hrounds
      rw [strideFill, if_neg (by omega)]
  | succ rounds ih =>
      intro j q i hlen hrounds
      rw [strideFill]
      by_cases hj : j < z
      · rw [if_pos hj, ih (j + f) _ i (by rwa [List.length_set]) (by omega)]
        have hstep : j + f ≤ i → ((i - (j + f)) % f = 0 ↔ (i - j) % f = 0) := by
          intro hle
          rw [show i - j = i - (j + f) + f by omega, Nat.add_mod_right]
        by_cases hi : i = j
        · subst hi
          rw [if_neg (by omega), if_pos ⟨le_rfl, hj, by simp⟩, List.getD_eq_getElem _ _ (by rw [List.length_set]; omega),
            List.getElem_set_self]
        · have hset : (q.set j r).getD i default = q.getD i default := by
            rw [List.getD_eq_getElem?_getD, List.getD_eq_getElem?_getD, List.getElem?_set_ne (fun e => hi e.symm)]
          rw [hset]
          by_cases hnext : j + f ≤ i
          · simp only [hnext, hstep hnext, show j ≤ i by omega, true_and]
          · have hno : ¬ (j ≤ i ∧ i < z ∧ (i - j) % f = 0) := by
              rintro ⟨hle, -, hmod⟩
              rw [Nat.mod_eq_of_lt (by omega)] at hmod
              omega
            rw [if_neg (by omega), if_neg hno]
      · rw [if_neg hj, if_neg (by omega)]

/-! ### Positions -/

variable (bd : Build)

/-- `c[]` as a function. -/
def cnt (k : Nat) : Nat := if k = 0 then 0 else bd.c.getD k 0

/-- How far the words up to a length reach. -/
def upTo (k : Nat) : Nat := mass bd.cnt bd.g k

/-- What `huft_build` knows of `l`, `g` and `c[]` when it comes to the loop, and that no table below the first one
    has to start with a word that fills it: either there are two levels at most, or there are not enough words. -/
structure Sound : Prop where
  pos : 0 < bd.l
  le : bd.l ≤ bd.g
  full : bd.upTo bd.g = 2 ^ bd.g
  last : bd.upTo (bd.g - 1) < 2 ^ bd.g
  roomy : bd.g < 2 * bd.l ∨ total bd.cnt bd.g < 2 ^ bd.l

/-- The position behind the words that begin like the one at `A`, as far as a table at height `m` looks. -/
def ending (A m : Nat) : Nat := (A / 2 ^ (bd.g - bd.l * m) + 1) * 2 ^ (bd.g - bd.l * m)

variable {bd}

theorem cnt_pos {k : Nat} (h : k ≠ 0) : bd.cnt k = bd.c.getD k 0 := if_neg h

theorem lt_ending (A m : Nat) : A < bd.ending A m := by
  rw [ending, Nat.mul_comm]
  exact Nat.lt_mul_div_succ A (Nat.two_pow_pos _)

theorem ending_of_dvd {A m : Nat} (h : 2 ^ (bd.g - bd.l * m) ∣ A) : bd.ending A m = A + 2 ^ (bd.g - bd.l * m) := by
  rw [ending, Nat.add_mul, Nat.one_mul, Nat.div_mul_cancel h]

theorem ending_le {A m : Nat} (hA : A < 2 ^ bd.g) (hm : bd.l * m ≤ bd.g) : bd.ending A m ≤ 2 ^ bd.g := by
  have hsplit : 2 ^ bd.g = 2 ^ (bd.l * m) * 2 ^ (bd.g - bd.l * m) := by rw [← pow_add, Nat.add_sub_cancel' hm]
  have hdiv : A / 2 ^ (bd.g - bd.l * m) < 2 ^ (bd.l * m) := by
    apply Nat.div_lt_of_lt_mul
    rwa [Nat.mul_comm, ← hsplit]
  rw [hsplit]
  exact Nat.mul_le_mul_right _ hdiv

theorem upTo_mono {k k' : Nat} (h : k ≤ k') : bd.upTo k ≤ bd.upTo k' := mass_mono h

theorem upTo_le (hs : bd.Sound) {k : Nat} (h : k ≤ bd.g) : bd.upTo k ≤ 2 ^ bd.g := hs.full ▸ upTo_mono h

/-- Only the words of the greatest length fill the interval. -/
theorem le_of_upTo_full (hs : bd.Sound) {k : Nat} (h : 2 ^ bd.g ≤ bd.upTo k) : bd.g ≤ k := by
  by_contra hlt
  have hmono : bd.upTo k ≤ bd.upTo (bd.g - 1) := upTo_mono (by omega)
  have hlast := hs.last
  omega

/-! ### Reversed positions -/

/-- `i` goes on to the next word. -/
theorem backInc_reversed :
    ∀ (k : Nat) {V : Nat}, V < 2 ^ k → backInc k (reversed k V) = reversed k (V + 1) := by
  intro k
  induction k with
  | zero => exact fun _ => rfl
  | succ k ih =>
      intro V hV
      have hhalf : V / 2 < 2 ^ k := by
        rw [Nat.pow_succ] at hV
        omega
      have hlt := reversed_lt k (V / 2)
      rcases Nat.mod_two_eq_zero_or_one V with heven | hodd
      · have hbit : (reversed k (V / 2)).testBit k = false := Nat.testBit_lt_two_pow hlt
        have hnext : reversed (k + 1) (V + 1) = 2 ^ k + reversed k (V / 2) := by
          rw [reversed_succ_odd (by omega), show (V + 1) / 2 = V / 2 by omega]
        have hxor : reversed k (V / 2) ^^^ 2 ^ k = 2 ^ k + reversed k (V / 2) := by
          rw [Nat.xor_comm]
          have h := Nat.two_pow_add_eq_or_of_lt hlt 1
          rw [Nat.mul_one] at h
          rw [h]
          apply Nat.eq_of_testBit_eq
          intro n
          rw [Nat.testBit_xor, Nat.testBit_or, Nat.testBit_two_pow]
          by_cases hn : k = n
          · subst hn
            simp [hbit]
          · simp [hn]
        rw [reversed_succ_even heven, backInc, hbit, if_neg (by decide), hxor, hnext]
      · have hsum : reversed (k + 1) V = 2 ^ k + reversed k (V / 2) := reversed_succ_odd hodd
        have hbit : (2 ^ k + reversed k (V / 2)).testBit k = true := by
          rw [Nat.testBit_two_pow_add_eq, Nat.testBit_lt_two_pow hlt]
          rfl
        have hxor : (2 ^ k + reversed k (V / 2)) ^^^ 2 ^ k = reversed k (V / 2) := by
          have h := Nat.two_pow_add_eq_or_of_lt hlt 1
          rw [Nat.mul_one] at h
          rw [h]
          apply Nat.eq_of_testBit_eq
          intro n
          rw [Nat.testBit_xor, Nat.testBit_or, Nat.testBit_two_pow]
          by_cases hn : k = n
          · subst hn
            simp [Nat.testBit_lt_two_pow hlt]
          · simp [hn]
        rw [hsum, backInc, hbit, if_pos rfl, hxor, ih hhalf, reversed_succ_even (by omega),
          show (V + 1) / 2 = V / 2 + 1 by omega]

/-! ### The tables that are being filled -/

/-- The frame at height `m`: a table for the words that begin with the first `l * m` bits of the position. It is looked
    at with `jl` bits, which is as many as the words with that beginning need, and nothing is written in it from `lim`
    on. -/
structure FrameOK (bd : Build) (tables : Tables) (A lim m : Nat) (fr : Frame) (jl : Nat) : Prop where
  inside : fr.table < tables.length
  deep : bd.l * m < bd.g
  pattern : fr.pattern = reversed (bd.l * m) (A / 2 ^ (bd.g - bd.l * m))
  reach : ∀ B, B % 2 ^ (bd.l * m) = fr.pattern → Reach tables bd.l B fr.table (bd.l * m) jl
  size : 2 ^ jl ≤ (tables.getD fr.table []).length
  narrow : jl ≤ bd.l
  wide : jl = bd.l ∨ bd.ending A m ≤ bd.upTo (bd.l * m + jl)
  behind : ∀ i, 0 < (tables.at fr.table i).b → reversed bd.g (fr.pattern + 2 ^ (bd.l * m) * i) < lim

/-- Every frame of the stack is in order, and no two are the same table; the limit for the top is `lim`, and `below` for
    the others. -/
def StackOK (bd : Build) (tables : Tables) (A lim below : Nat) : List Frame → Prop
  | [] => True
  | fr :: rest =>
      (∃ jl, FrameOK bd tables A lim rest.length fr jl) ∧ (∀ fr' ∈ rest, fr'.table ≠ fr.table) ∧
        StackOK bd tables A below below rest

/-- The top of the stack is the table at `q`, of `z` entries. -/
def TopOK (st : Gen) : Prop :=
  ∃ fr rest, st.stack = fr :: rest ∧ st.q = fr.table ∧ st.z = (st.tables.getD fr.table []).length

/-- The state of the loop at position `A`, where words of `k` bits are made. Below the top the entry at the position
    itself may be written: it points to the next table. -/
structure Inv (bd : Build) (st : Gen) (A k : Nat) : Prop where
  code : st.i = reversed bd.g A
  stack : StackOK bd st.tables A A (A + 1) st.stack
  bottom : st.stack = [] → st.tables = []
  aligned : 2 ^ (bd.g - bd.l * st.stack.length) ∣ A
  shallow : bd.l * (st.stack.length - 1) < k
  top : TopOK st ∨ bd.l * st.stack.length < k

theorem Inv.mono {st : Gen} {A k k' : Nat} (h : Inv bd st A k) (hk : k ≤ k') : Inv bd st A k' :=
  { code := h.code
    stack := h.stack
    bottom := h.bottom
    aligned := h.aligned
    shallow := h.shallow.trans_le hk
    top := h.top.imp_right fun hlt => hlt.trans_le hk }

/-- At the beginning there is no table. -/
theorem inv_start {k : Nat} (hk : 0 < k) : Inv bd ⟨[], [], 0, 0, 0, 0⟩ 0 k :=
  { code := (reversed_zero _).symm
    stack := trivial
    bottom := fun _ => rfl
    aligned := dvd_zero _
    shallow := hk
    top := Or.inr hk }

section frames

variable {tables old new : Tables} {A lim below m jl k : Nat} {fr : Frame} {stack : List Frame}

/-- The frame's own bits of the position. -/
theorem FrameOK.pattern_eq (h : FrameOK bd tables A lim m fr jl) :
    fr.pattern = reversed bd.g A % 2 ^ (bd.l * m) := by
  rw [h.pattern, reversed_mod A h.deep.le]

/-- A word that has to be put in the frame's table is not longer than what the table is looked at with. -/
theorem FrameOK.fits (h : FrameOK bd tables A lim m fr jl) (hA : bd.upTo (k - 1) ≤ A)
    (hk : k ≤ bd.l * m + bd.l) : k ≤ bd.l * m + jl := by
  rcases h.wide with hl | hend
  · omega
  · by_contra hlong
    have hmono : bd.upTo (bd.l * m + jl) ≤ bd.upTo (k - 1) := upTo_mono (by omega)
    have hlt : A < bd.ending A m := lt_ending A m
    omega

/-- A frame whose words need another table is looked at with all of its `l` bits. -/
theorem FrameOK.bits_eq (h : FrameOK bd tables A lim m fr jl) (hA : bd.upTo (k - 1) ≤ A)
    (hk : bd.l * m + bd.l < k) : jl = bd.l := by
  rcases h.wide with hl | hend
  · exact hl
  · have hnarrow := h.narrow
    have hmono : bd.upTo (bd.l * m + jl) ≤ bd.upTo (k - 1) := upTo_mono (by omega)
    have hlt : A < bd.ending A m := lt_ending A m
    omega

/-- A frame whose table is not written stays in order while the position is the same. -/
theorem FrameOK.extend (h : FrameOK bd old A lim m fr jl) (hext : Extends old new) (hlen : old.length ≤ new.length)
    (hsame : new.getD fr.table [] = old.getD fr.table []) : FrameOK bd new A lim m fr jl :=
  { inside := h.inside.trans_le hlen
    deep := h.deep
    pattern := h.pattern
    reach := fun B hB => (h.reach B hB).mono hext
    size := by rw [hsame]; exact h.size
    narrow := h.narrow
    wide := h.wide
    behind := fun i hi => h.behind i (by rwa [Tables.at, hsame] at hi) }

theorem StackOK.extend (h : StackOK bd old A lim below stack) (hext : Extends old new) (hlen : old.length ≤ new.length)
    (hsame : ∀ fr ∈ stack, new.getD fr.table [] = old.getD fr.table []) :
    StackOK bd new A lim below stack := by
  induction stack generalizing lim with
  | nil => trivial
  | cons fr rest ih =>
      obtain ⟨⟨jl, hfr⟩, hne, hrest⟩ := h
      exact ⟨⟨jl, hfr.extend hext hlen (hsame fr List.mem_cons_self)⟩, hne,
        ih hrest fun fr' hmem => hsame fr' (List.mem_cons_of_mem _ hmem)⟩

theorem StackOK.inside (h : StackOK bd tables A lim below stack) : ∀ fr ∈ stack, fr.table < tables.length := by
  induction stack generalizing lim with
  | nil => exact List.forall_mem_nil _
  | cons fr rest ih =>
      obtain ⟨⟨jl, hfr⟩, -, hrest⟩ := h
      intro fr' hmem
      rcases List.mem_cons.mp hmem with rfl | hin
      · exact hfr.inside
      · exact ih hrest fr' hin

end frames

/-! ### The size of a new table -/

theorem upTo_succ (k : Nat) : bd.upTo (k + 1) = bd.upTo k + bd.cnt (k + 1) * 2 ^ (bd.g - (k + 1)) := rfl

/-- The loop goes on while there are patterns left, and `f` counts them. -/
theorem growLoop_spec {w z E : Nat} (hz : w + z ≤ bd.g) :
    ∀ (rounds f j : Nat), j < z → z ≤ j + rounds → E = bd.upTo (w + j) + f * 2 ^ (bd.g - (w + j)) →
      j < bd.growLoop w z rounds f j ∧ bd.growLoop w z rounds f j ≤ z ∧
        (bd.growLoop w z rounds f j = z ∨ E ≤ bd.upTo (w + bd.growLoop w z rounds f j)) := by
  intro rounds
  induction rounds with
  | zero =>
      intro f j hj hrounds _
      exact absurd hrounds (by omega)
  | succ rounds ih =>
      intro f j hj hrounds hE
      have hc : bd.c.getD (w + (j + 1)) 0 = bd.cnt (w + j + 1) := by
        rw [cnt_pos (by omega)]
        rfl
      have hpow : 2 ^ (bd.g - (w + j)) = 2 * 2 ^ (bd.g - (w + j + 1)) := by
        rw [← pow_succ']
        congr 1
        omega
      have hE' : E = bd.upTo (w + j) + f * 2 * 2 ^ (bd.g - (w + j + 1)) := by
        rw [hE, hpow]
        ring
      have hnext : bd.upTo (w + (j + 1)) = bd.upTo (w + j) + bd.cnt (w + j + 1) * 2 ^ (bd.g - (w + j + 1)) :=
        upTo_succ (w + j)
      rw [growLoop]
      by_cases hlast : j + 1 < z
      · rw [if_pos hlast]
        by_cases hfull : f * 2 ≤ bd.c.getD (w + (j + 1)) 0
        · -- enough codes to use up j bits
          rw [if_pos hfull]
          refine ⟨Nat.lt_succ_self j, hlast.le, Or.inr ?_⟩
          rw [hE', hnext]
          exact Nat.add_le_add_left (Nat.mul_le_mul_right _ (hc ▸ hfull)) _
        · rw [if_neg hfull]
          have hleft : E = bd.upTo (w + (j + 1)) +
              (f * 2 - bd.c.getD (w + (j + 1)) 0) * 2 ^ (bd.g - (w + (j + 1))) := by
            rw [hE', hnext, hc, ← Nat.add_assoc w j 1, Nat.add_assoc (bd.upTo (w + j)), ← Nat.add_mul,
              Nat.add_sub_cancel' (by rw [hc] at hfull; omega)]
          obtain ⟨hgrow, hle, hcases⟩ := ih _ (j + 1) hlast (by omega) hleft
          exact ⟨by omega, hle, hcases⟩
      · rw [if_neg hlast]
        exact ⟨Nat.lt_succ_self j, hj, Or.inl (by omega)⟩

/-- The first word of a table below the first one does not fill it. -/
theorem short_of_roomy (hs : bd.Sound) {A a k m : Nat} (hm : 0 < m) (hmk : bd.l * m < k) (hk : k ≤ bd.g)
    (hA : A < 2 ^ bd.g) (hal : 2 ^ (bd.g - bd.l * m) ∣ A) (hend : A + (a + 1) * 2 ^ (bd.g - k) = bd.upTo k)
    (ha : a < bd.cnt k) : k < bd.l * m + bd.l := by
  have hlm : bd.l ≤ bd.l * m := Nat.le_mul_of_pos_right _ hm
  rcases hs.roomy with hshallow | hfew
  · omega
  · by_contra hlong
    have hfits : A + 2 ^ (bd.g - bd.l * m) ≤ bd.upTo bd.g := by
      rw [hs.full, ← ending_of_dvd hal]
      exact ending_le hA (hmk.le.trans hk)
    have htotal : bd.upTo bd.g + total bd.cnt k * 2 ^ (bd.g - k) ≤
        bd.upTo k + total bd.cnt bd.g * 2 ^ (bd.g - k) := mass_le_total hk
    have hcount : a + 1 ≤ total bd.cnt k := by
      obtain ⟨k, rfl⟩ : ∃ n, k = n + 1 := ⟨k - 1, by omega⟩
      rw [total]
      omega
    have hcover : (a + 1) * 2 ^ (bd.g - k) ≤ total bd.cnt k * 2 ^ (bd.g - k) := Nat.mul_le_mul_right _ hcount
    have hsplit : 2 ^ (bd.g - bd.l * m) = 2 ^ (k - bd.l * m) * 2 ^ (bd.g - k) := by
      rw [← pow_add]
      congr 1
      omega
    have hmany : 2 ^ (k - bd.l * m) * 2 ^ (bd.g - k) ≤ total bd.cnt bd.g * 2 ^ (bd.g - k) := by
      rw [← hsplit]
      omega
    have hpow : 2 ^ (k - bd.l * m) ≤ total bd.cnt bd.g := Nat.le_of_mul_le_mul_right hmany (Nat.two_pow_pos _)
    have hdeep : 2 ^ bd.l ≤ 2 ^ (k - bd.l * m) := Nat.pow_le_pow_right (by decide) (by omega)
    omega

/-- A new table is large enough for the words that begin like the one it is made for. -/
theorem tableBits_spec (hs : bd.Sound) {A a k m : Nat} (hmk : bd.l * m < k) (hk : k ≤ bd.g) (hA : A < 2 ^ bd.g)
    (hal : 2 ^ (bd.g - bd.l * m) ∣ A) (hend : A + (a + 1) * 2 ^ (bd.g - k) = bd.upTo k) (ha : a < bd.cnt k) :
    (m = 0 → bd.l ≤ bd.tableBits k a (bd.l * m)) ∧
      (0 < m → 0 < bd.tableBits k a (bd.l * m) ∧ bd.tableBits k a (bd.l * m) ≤ bd.l ∧
        (bd.tableBits k a (bd.l * m) = bd.l ∨
          bd.ending A m ≤ bd.upTo (bd.l * m + bd.tableBits k a (bd.l * m)))) := by
  have hE : bd.ending A m = A + 2 ^ (bd.g - bd.l * m) := ending_of_dvd hal
  have hfull : bd.ending A m ≤ 2 ^ bd.g := ending_le hA (hmk.le.trans hk)
  have hsplit : 2 ^ (bd.g - bd.l * m) = 2 ^ (k - bd.l * m) * 2 ^ (bd.g - k) := by
    rw [← pow_add]
    congr 1
    omega
  -- at the bottom the beginning is empty, so the words are all there are
  have hall : m = 0 → 2 ^ bd.g ≤ bd.ending A m := by
    intro hm
    rw [hE, hm, Nat.mul_zero, Nat.sub_zero]
    exact Nat.le_add_left _ _
  have hshort : 0 < m → k < bd.l * m + bd.l := fun hm => short_of_roomy hs hm hmk hk hA hal hend ha
  simp only [tableBits]
  by_cases hpat : 2 ^ (k - bd.l * m) > a + 1
  · rw [if_pos hpat]
    by_cases hroom : k - bd.l * m < min (bd.g - bd.l * m) bd.l
    · have hleft : bd.ending A m = bd.upTo (bd.l * m + (k - bd.l * m)) +
          (2 ^ (k - bd.l * m) - (a + 1)) * 2 ^ (bd.g - (bd.l * m + (k - bd.l * m))) := by
        rw [Nat.add_sub_cancel' hmk.le, hE, hsplit, ← hend, Nat.add_assoc, ← Nat.add_mul,
          Nat.add_sub_cancel' hpat.le]
      obtain ⟨hgrow, hle, hcases⟩ := growLoop_spec (by omega)
        (min (bd.g - bd.l * m) bd.l + 1) _ _ hroom (by omega) hleft
      constructor
      · intro hm
        rcases hcases with heq | hup
        · rw [heq, hm, Nat.mul_zero, Nat.sub_zero]
          exact le_min hs.le le_rfl
        · have hg := le_of_upTo_full hs ((hall hm).trans hup)
          have hl := hs.le
          rw [hm, Nat.mul_zero, Nat.zero_add] at hg
          rw [hm, Nat.mul_zero]
          omega
      · intro hm
        refine ⟨by omega, hle.trans (Nat.min_le_right _ _), ?_⟩
        rcases hcases with heq | hup
        · by_cases hl : bd.l ≤ bd.g - bd.l * m
          · exact Or.inl (heq.trans (Nat.min_eq_right hl))
          · refine Or.inr ?_
            rw [heq, Nat.min_eq_left (by omega), Nat.add_sub_cancel' (hmk.le.trans hk), hs.full]
            exact hfull
        · exact Or.inr hup
    · rw [growLoop, if_neg (by omega)]
      constructor
      · intro hm
        have hl := hs.le
        rw [hm, Nat.mul_zero, Nat.sub_zero, Nat.sub_zero] at hroom
        rw [hm, Nat.mul_zero, Nat.sub_zero]
        omega
      · -- below the first table the word would have to be of the greatest length, and then nothing is left over
        intro hm
        have hlast : k = bd.g := by
          have h := hshort hm
          omega
        have hone : 2 ^ (bd.g - k) = 1 := by rw [hlast, Nat.sub_self, Nat.pow_zero]
        rw [hone, Nat.mul_one] at hend hsplit
        rw [hlast, hs.full] at hend
        omega
  · rw [if_neg hpat]
    have hcovered : bd.ending A m ≤ bd.upTo k := by
      rw [hE, hsplit, ← hend]
      exact Nat.add_le_add_left (Nat.mul_le_mul_right _ (Nat.le_of_not_lt hpat)) _
    constructor
    · intro hm
      have hg := le_of_upTo_full hs ((hall hm).trans hcovered)
      have hl := hs.le
      rw [hm, Nat.mul_zero, Nat.sub_zero]
      omega
    · intro hm
      have h := hshort hm
      refine ⟨by omega, by omega, Or.inr ?_⟩
      rwa [Nat.add_sub_cancel' hmk.le]

/-! ### One new table -/

/-- A position inside the words of `k` bits is behind the shorter ones. -/
theorem upTo_pred_le {A a k : Nat} (hend : A + (a + 1) * 2 ^ (bd.g - k) = bd.upTo k) (ha : a < bd.cnt k) :
    bd.upTo (k - 1) ≤ A := by
  cases k with
  | zero => exact absurd ha (Nat.not_lt_zero a)
  | succ k =>
      have hcover : (a + 1) * 2 ^ (bd.g - (k + 1)) ≤ bd.cnt (k + 1) * 2 ^ (bd.g - (k + 1)) :=
        Nat.mul_le_mul_right _ ha
      rw [upTo_succ] at hend
      rw [Nat.add_sub_cancel]
      omega

/-- Setting an entry that was not written, in one table. -/
theorem extends_set {tables : Tables} {t i : Nat} (r : Huft) (hfree : (tables.at t i).b = 0) :
    Extends tables (tables.modify t fun u => u.set i r) := by
  intro t' i' hb
  by_cases ht : t' = t
  · subst ht
    have hne : i' ≠ i := by
      rintro rfl
      omega
    have hin : t' < tables.length := by
      by_contra hout
      rw [Tables.at, List.getD_eq_default _ _ (Nat.le_of_not_lt hout)] at hb
      exact absurd hb (Nat.lt_irrefl 0)
    have hset : ((tables.getD t' []).set i r).getD i' default = (tables.getD t' []).getD i' default := by
      rw [List.getD_eq_getElem?_getD, List.getElem?_set_ne (fun e => hne e.symm), ← List.getD_eq_getElem?_getD]
    rw [Tables.at, getD_modify_self hin, hset, Tables.at]
  · rw [Tables.at, getD_modify_of_ne _ ht, Tables.at]

theorem extends_append (tables : Tables) (q : List Huft) : Extends tables (tables ++ [q]) := by
  intro t i hb
  have hin : t < tables.length := by
    by_contra hout
    rw [Tables.at, List.getD_eq_default _ _ (Nat.le_of_not_lt hout)] at hb
    exact absurd hb (Nat.lt_irrefl 0)
  rw [at_append_of_lt hin]

/-- A fresh table behind the others, and an entry that points to it. -/
def link (tables : Tables) (t i : Nat) (r : Huft) (z : Nat) : Tables :=
  (tables ++ [List.replicate z default]).modify t fun u => u.set i r

section link

variable {tables : Tables} {t i z : Nat} {r : Huft}

theorem length_link : (link tables t i r z).length = tables.length + 1 := by
  rw [link, List.length_modify, List.length_append, List.length_singleton]

theorem getD_link_of_ne {t' : Nat} (ht' : t' < tables.length) (hne : t' ≠ t) :
    (link tables t i r z).getD t' [] = tables.getD t' [] := by
  rw [link, getD_modify_of_ne _ hne, List.getD_append _ _ _ _ ht']

theorem getD_link_new (ht : t < tables.length) :
    (link tables t i r z).getD tables.length [] = List.replicate z default := by
  rw [link, getD_modify_of_ne _ ht.ne', List.getD_append_right _ _ _ _ le_rfl, Nat.sub_self]
  rfl

theorem getD_link_self (ht : t < tables.length) :
    (link tables t i r z).getD t [] = (tables.getD t []).set i r := by
  have hlen : t < (tables ++ [List.replicate z (default : Huft)]).length := by
    rw [List.length_append]
    exact Nat.lt_add_right _ ht
  rw [link, getD_modify_self hlen, List.getD_append _ _ _ _ ht]

/-- Nothing is written in the new table. -/
theorem at_link_new (ht : t < tables.length) (i' : Nat) : ((link tables t i r z).at tables.length i').b = 0 := by
  rw [Tables.at, getD_link_new ht, List.getD_eq_getElem?_getD, List.getElem?_replicate]
  split <;> rfl

theorem at_link_self (ht : t < tables.length) (hi : i < (tables.getD t []).length) :
    (link tables t i r z).at t i = r := by
  rw [Tables.at, getD_link_self ht, List.getD_eq_getElem _ _ (by rwa [List.length_set]), List.getElem_set_self]

theorem at_link_of_ne (ht : t < tables.length) {i' : Nat} (hne : i' ≠ i) :
    (link tables t i r z).at t i' = tables.at t i' := by
  rw [Tables.at, getD_link_self ht, List.getD_eq_getElem?_getD, List.getElem?_set_ne (fun e => hne e.symm),
    ← List.getD_eq_getElem?_getD, Tables.at]

theorem extends_link (ht : t < tables.length) (hfree : (tables.at t i).b = 0) :
    Extends tables (link tables t i r z) := by
  have hfree' : (Tables.at (tables ++ [List.replicate z default]) t i).b = 0 := by rwa [at_append_of_lt ht]
  exact (extends_append tables _).trans (extends_set r hfree')

end link

/-- The first table. -/
theorem openTable_root (hs : bd.Sound) {st : Gen} {A a k : Nat} (h : Inv bd st A k) (hstack : st.stack = [])
    (hk : 0 < k) (hkg : k ≤ bd.g) (hA : A < 2 ^ bd.g) (hend : A + (a + 1) * 2 ^ (bd.g - k) = bd.upTo k)
    (ha : a < bd.cnt k) :
    Inv bd (bd.openTable k a st) A k ∧ TopOK (bd.openTable k a st) ∧
      Extends st.tables (bd.openTable k a st).tables := by
  obtain ⟨j, hj⟩ : ∃ j, j = bd.tableBits k a (bd.l * 0) := ⟨_, rfl⟩
  have htables : st.tables = [] := h.bottom hstack
  have hzero : A = 0 := by
    have hal := h.aligned
    rw [hstack, List.length_nil, Nat.mul_zero, Nat.sub_zero] at hal
    exact Nat.eq_zero_of_dvd_of_lt hal hA
  have hl : bd.l ≤ j := by
    rw [hj]
    exact (tableBits_spec hs (m := 0) hk hkg hA (by rw [hzero]; exact dvd_zero _) hend ha).1 rfl
  have hopen : bd.openTable k a st =
      { st with tables := [List.replicate (2 ^ j) default], stack := [⟨0, 0⟩], q := 0, z := 2 ^ j } := by
    rw [openTable, hstack, List.length_nil, ← hj, htables]
    rfl
  have hfresh (i : Nat) : (Tables.at [List.replicate (2 ^ j) default] 0 i).b = 0 :=
    congrArg Huft.b (at_append_fresh [] _ i)
  have hfr : FrameOK bd [List.replicate (2 ^ j) default] A A 0 ⟨0, 0⟩ bd.l :=
    { inside := Nat.zero_lt_one
      deep := hk.trans_le hkg
      pattern := by rw [Nat.mul_zero]; rfl
      reach := fun B _ => Reach.root
      size := by
        rw [List.getD_cons_zero, List.length_replicate]
        exact Nat.pow_le_pow_right (by decide) hl
      narrow := le_rfl
      wide := Or.inl rfl
      behind := fun i hi => absurd (hfresh i) hi.ne' }
  have htop : TopOK (bd.openTable k a st) := by
    rw [hopen]
    exact ⟨⟨0, 0⟩, [], rfl, rfl, List.length_replicate.symm⟩
  refine ⟨?_, htop, ?_⟩
  · constructor
    · rw [hopen]
      exact h.code
    · rw [hopen]
      exact ⟨⟨bd.l, hfr⟩, List.forall_mem_nil _, trivial⟩
    · rw [hopen]
      exact fun hnil => absurd hnil (List.cons_ne_nil _ _)
    · rw [hzero]
      exact dvd_zero _
    · rw [hopen]
      exact hk
    · exact Or.inl htop
  · rw [htables]
    intro t i hb
    exact absurd hb (Nat.lt_irrefl 0)

/-- The place in the table below that stands for the position. -/
theorem FrameOK.place {tables : Tables} {A m : Nat} {fr : Frame} (h : FrameOK bd tables A A m fr bd.l)
    (hA : A < 2 ^ bd.g) (hm : bd.l * (m + 1) ≤ bd.g) (hal : 2 ^ (bd.g - bd.l * (m + 1)) ∣ A) :
    fr.pattern + 2 ^ (bd.l * m) * (reversed bd.g A / 2 ^ (bd.l * m)) = reversed bd.g A ∧
      reversed bd.g A / 2 ^ (bd.l * m) < 2 ^ bd.l ∧
      (tables.at fr.table (reversed bd.g A / 2 ^ (bd.l * m))).b = 0 := by
  have hjoin : fr.pattern + 2 ^ (bd.l * m) * (reversed bd.g A / 2 ^ (bd.l * m)) = reversed bd.g A := by
    rw [h.pattern_eq, Nat.mod_add_div]
  refine ⟨hjoin, ?_, ?_⟩
  · have hlt : reversed bd.g A < 2 ^ (bd.l * (m + 1)) := by
      rw [reversed_aligned hm hal]
      exact reversed_lt _ _
    apply Nat.div_lt_of_lt_mul
    rwa [← pow_add, ← Nat.mul_succ]
  · by_contra hne
    have hlt := h.behind _ (Nat.pos_of_ne_zero hne)
    rw [hjoin, reversed_reversed bd.g hA] at hlt
    exact Nat.lt_irrefl A hlt

/-- The table below after its entry at the position has been made to point to a new table. -/
theorem FrameOK.linked {tables : Tables} {A m j : Nat} {fr : Frame} (h : FrameOK bd tables A A m fr bd.l)
    (hA : A < 2 ^ bd.g) (hm : bd.l * (m + 1) ≤ bd.g) (hal : 2 ^ (bd.g - bd.l * (m + 1)) ∣ A) (r : Huft) :
    FrameOK bd (link tables fr.table (reversed bd.g A / 2 ^ (bd.l * m)) r (2 ^ j)) A (A + 1) m fr bd.l := by
  obtain ⟨hjoin, -, hfree⟩ := h.place hA hm hal
  constructor
  · rw [length_link]
    exact Nat.lt_add_right 1 h.inside
  · exact h.deep
  · exact h.pattern
  · exact fun B hB => (h.reach B hB).mono (extends_link h.inside hfree)
  · rw [getD_link_self h.inside, List.length_set]
    exact h.size
  · exact le_rfl
  · exact Or.inl rfl
  · intro i hi
    by_cases hi' : i = reversed bd.g A / 2 ^ (bd.l * m)
    · rw [hi', hjoin, reversed_reversed bd.g hA]
      exact Nat.lt_succ_self A
    · rw [at_link_of_ne h.inside hi'] at hi
      exact (h.behind i hi).trans (Nat.lt_succ_self A)

/-- The new table is reached through the entry that points to it. -/
theorem reach_link (hs : bd.Sound) {tables : Tables} {A m j B : Nat} {fr : Frame}
    (h : FrameOK bd tables A A m fr bd.l) (hA : A < 2 ^ bd.g) (hm : bd.l * (m + 1) ≤ bd.g)
    (hal : 2 ^ (bd.g - bd.l * (m + 1)) ∣ A) (hj : 0 < j) (hjl : j ≤ bd.l)
    (hB : B % 2 ^ (bd.l * (m + 1)) = reversed bd.g A) :
    Reach (link tables fr.table (reversed bd.g A / 2 ^ (bd.l * m)) ⟨16 + j, bd.l, tables.length⟩ (2 ^ j)) bd.l B
      tables.length (bd.l * (m + 1)) j := by
  obtain ⟨-, hslot, -⟩ := h.place hA hm hal
  have hbelow : B % 2 ^ (bd.l * m) = fr.pattern := by
    rw [h.pattern_eq, ← hB, Nat.mod_mod_of_dvd _ (Nat.pow_dvd_pow 2 (Nat.mul_le_mul_left _ (Nat.le_succ m)))]
  have hindex : B / 2 ^ (bd.l * m) % 2 ^ bd.l = reversed bd.g A / 2 ^ (bd.l * m) := by
    rw [← hB, Nat.mul_succ, pow_add, Nat.mod_mul_right_div_self]
  have hentry := at_link_self (r := ⟨16 + j, bd.l, tables.length⟩) (z := 2 ^ j) h.inside (hslot.trans_le h.size)
  have hreach := (h.linked (j := j) hA hm hal ⟨16 + j, bd.l, tables.length⟩).reach B hbelow
  rw [← hindex] at hentry hreach ⊢
  have hstep := Reach.step hreach (by rw [hentry]; exact Nat.lt_add_of_pos_right hj)
    (by rw [hentry]; exact Nat.add_le_add_left hjl 16) (by rw [hentry]; exact hs.pos) (by rw [hentry])
    (by rw [hentry])
  rw [hentry] at hstep
  rw [Nat.mul_succ]
  simpa only [Nat.add_sub_cancel_left] using hstep

/-- A further table, which the entry of the table below at the position points to. -/
theorem openTable_push (hs : bd.Sound) {st : Gen} {A a k : Nat} {parent : Frame} {rest : List Frame}
    (h : Inv bd st A k) (hstack : st.stack = parent :: rest) (hk : bd.l * (rest.length + 1) < k) (hkg : k ≤ bd.g)
    (hA : A < 2 ^ bd.g) (hend : A + (a + 1) * 2 ^ (bd.g - k) = bd.upTo k) (ha : a < bd.cnt k) :
    Inv bd (bd.openTable k a st) A k ∧ TopOK (bd.openTable k a st) ∧
      Extends st.tables (bd.openTable k a st).tables := by
  obtain ⟨j, hj⟩ : ∃ j, j = bd.tableBits k a (bd.l * (rest.length + 1)) := ⟨_, rfl⟩
  obtain ⟨⟨jl, hparent⟩, hdistinct, hrest⟩ : StackOK bd st.tables A A (A + 1) (parent :: rest) := hstack ▸ h.stack
  have hal : 2 ^ (bd.g - bd.l * (rest.length + 1)) ∣ A := by
    have hal := h.aligned
    rwa [hstack, List.length_cons] at hal
  obtain ⟨hjpos, hjl, hwide⟩ := (tableBits_spec hs hk hkg hA hal hend ha).2 (Nat.succ_pos rest.length)
  rw [← hj] at hjpos hjl hwide
  have hbits : jl = bd.l := hparent.bits_eq (upTo_pred_le hend ha) (by rwa [Nat.mul_succ] at hk)
  subst hbits
  have hm : bd.l * (rest.length + 1) ≤ bd.g := hk.le.trans hkg
  obtain ⟨-, -, hfree⟩ := hparent.place hA hm hal
  obtain ⟨i, hi⟩ : ∃ i, i = reversed bd.g A / 2 ^ (bd.l * rest.length) := ⟨_, rfl⟩
  obtain ⟨T, hT⟩ : ∃ T, T = link st.tables parent.table i ⟨16 + j, bd.l, st.tables.length⟩ (2 ^ j) := ⟨_, rfl⟩
  have hplace : st.i >>> (bd.l * (rest.length + 1) - bd.l) = i := by
    rw [Nat.shiftRight_eq_div_pow, h.code, hi, Nat.mul_succ, Nat.add_sub_cancel]
  have hopen : bd.openTable k a st =
      { st with
        tables := T, stack := ⟨st.tables.length, st.i⟩ :: parent :: rest, q := st.tables.length, z := 2 ^ j } := by
    rw [openTable, hstack, List.length_cons, ← hj, hT]
    dsimp only
    rw [hplace]
    rfl
  have hext : Extends st.tables T := by
    rw [hT, hi]
    exact extends_link hparent.inside hfree
  have hparent' : FrameOK bd T A (A + 1) rest.length parent bd.l := by
    rw [hT, hi]
    exact hparent.linked hA hm hal _
  have hnew : FrameOK bd T A A (rest.length + 1) ⟨st.tables.length, st.i⟩ j := by
    rw [hT]
    constructor
    · rw [length_link]
      exact Nat.lt_succ_self _
    · exact hk.trans_le hkg
    · exact h.code.trans (reversed_aligned hm hal)
    · intro B hB
      rw [hi]
      exact reach_link hs hparent hA hm hal hjpos hjl (hB.trans h.code)
    · rw [getD_link_new hparent.inside, List.length_replicate]
    · exact hjl
    · exact hwide
    · exact fun i hi => absurd (at_link_new hparent.inside i) hi.ne'
  have hin := StackOK.inside hrest
  have htop : TopOK (bd.openTable k a st) := by
    rw [hopen]
    refine ⟨_, _, rfl, rfl, ?_⟩
    rw [hT, getD_link_new hparent.inside, List.length_replicate]
  refine ⟨?_, htop, by rw [hopen]; exact hext⟩
  constructor
  · rw [hopen]
    exact h.code
  · rw [hopen]
    refine ⟨⟨j, hnew⟩, ?_, ⟨bd.l, hparent'⟩, hdistinct, ?_⟩
    · intro fr' hmem
      rcases List.mem_cons.mp hmem with rfl | hmem'
      · exact hparent.inside.ne
      · exact (hin fr' hmem').ne
    · apply hrest.extend hext
      · rw [hT, length_link]
        exact Nat.le_succ _
      · intro fr' hmem
        rw [hT, getD_link_of_ne (hin fr' hmem) (hdistinct fr' hmem)]
  · rw [hopen]
    exact fun hnil => absurd hnil (List.cons_ne_nil _ _)
  · rw [hopen]
    exact (Nat.pow_dvd_pow 2 (Nat.sub_le_sub_left (Nat.mul_le_mul_left _ (Nat.le_succ _)) _)).trans hal
  · rw [hopen]
    exact hk
  · exact Or.inl htop

theorem openTable_spec (hs : bd.Sound) {st : Gen} {A a k : Nat} (h : Inv bd st A k)
    (hk : bd.l * st.stack.length < k) (hkg : k ≤ bd.g) (hA : A < 2 ^ bd.g)
    (hend : A + (a + 1) * 2 ^ (bd.g - k) = bd.upTo k) (ha : a < bd.cnt k) :
    Inv bd (bd.openTable k a st) A k ∧ Extends st.tables (bd.openTable k a st).tables ∧
      (bd.openTable k a st).stack.length = st.stack.length + 1 ∧ (bd.openTable k a st).p = st.p := by
  cases hstack : st.stack with
  | nil =>
      obtain ⟨hinv, -, hext⟩ := openTable_root hs h hstack (Nat.zero_lt_of_lt hk) hkg hA hend ha
      exact ⟨hinv, hext, by simp [openTable, hstack], by simp [openTable, hstack]⟩
  | cons parent rest =>
      rw [hstack] at hk
      obtain ⟨hinv, -, hext⟩ := openTable_push hs h hstack hk hkg hA hend ha
      exact ⟨hinv, hext, by simp [openTable, hstack], by simp [openTable, hstack]⟩

/-- `while (k > w + l)` ends with a table for words of `k` bits on top. -/
theorem openTables_spec (hs : bd.Sound) {A a k : Nat} (hkg : k ≤ bd.g) (hA : A < 2 ^ bd.g)
    (hend : A + (a + 1) * 2 ^ (bd.g - k) = bd.upTo k) (ha : a < bd.cnt k) :
    ∀ (rounds : Nat) {st : Gen}, Inv bd st A k → k ≤ bd.l * st.stack.length + rounds →
      Inv bd (bd.openTables k a rounds st) A k ∧ TopOK (bd.openTables k a rounds st) ∧
        k ≤ bd.l * (bd.openTables k a rounds st).stack.length ∧
        Extends st.tables (bd.openTables k a rounds st).tables ∧ (bd.openTables k a rounds st).p = st.p := by
  intro rounds
  induction rounds with
  | zero =>
      intro st h hrounds
      exact ⟨h, h.top.resolve_right (by omega), hrounds, Extends.refl _, rfl⟩
  | succ rounds ih =>
      intro st h hrounds
      rw [openTables]
      by_cases hk : k > bd.l * st.stack.length
      · rw [if_pos hk]
        obtain ⟨hinv, hext, hlen, hp⟩ := openTable_spec hs h hk hkg hA hend ha
        have hrounds' : k ≤ bd.l * (bd.openTable k a st).stack.length + rounds := by
          have hpos := hs.pos
          rw [hlen, Nat.mul_succ]
          omega
        obtain ⟨hinv', htop, hk', hext', hp'⟩ := ih hinv hrounds'
        exact ⟨hinv', htop, hk', hext.trans hext', hp'.trans hp⟩
      · rw [if_neg hk]
        exact ⟨h, h.top.resolve_right hk, Nat.le_of_not_lt hk, Extends.refl _, rfl⟩

/-! ### Going back to the table the next word belongs to -/

/-- A frame stays in order when the position moves among the words with its beginning. -/
theorem FrameOK.move {tables : Tables} {A A' lim m jl : Nat} {fr : Frame} (h : FrameOK bd tables A lim m fr jl)
    (hsame : A' / 2 ^ (bd.g - bd.l * m) = A / 2 ^ (bd.g - bd.l * m)) : FrameOK bd tables A' lim m fr jl :=
  { h with
    pattern := by rw [hsame]; exact h.pattern
    wide := by rw [ending, hsame]; exact h.wide }

theorem StackOK.move {tables : Tables} {A A' below : Nat} {stack : List Frame} :
    ∀ {lim : Nat}, StackOK bd tables A lim below stack →
      A' / 2 ^ (bd.g - bd.l * (stack.length - 1)) = A / 2 ^ (bd.g - bd.l * (stack.length - 1)) →
      StackOK bd tables A' lim below stack := by
  induction stack with
  | nil => exact fun _ _ => trivial
  | cons fr rest ih =>
      intro lim h hsame
      obtain ⟨⟨jl, hfr⟩, hne, hrest⟩ := h
      rw [List.length_cons, Nat.add_sub_cancel] at hsame
      refine ⟨⟨jl, hfr.move hsame⟩, hne, ih hrest ?_⟩
      -- a shorter beginning is the beginning of the beginning
      obtain ⟨d, hd⟩ : ∃ d, bd.g - bd.l * (rest.length - 1) = (bd.g - bd.l * rest.length) + d := by
        have hle : bd.l * (rest.length - 1) ≤ bd.l * rest.length := Nat.mul_le_mul_left _ (Nat.sub_le _ _)
        exact ⟨bd.g - bd.l * (rest.length - 1) - (bd.g - bd.l * rest.length), by omega⟩
      rw [hd, pow_add, ← Nat.div_div_eq_div_mul, ← Nat.div_div_eq_div_mul, hsame]

theorem StackOK.below {tables : Tables} {A lim lim' below below' : Nat} {stack : List Frame}
    (h : StackOK bd tables A lim below stack) (hlim : lim ≤ lim') (hbelow : below ≤ below') :
    StackOK bd tables A lim' below' stack := by
  induction stack generalizing lim lim' with
  | nil => trivial
  | cons fr rest ih =>
      obtain ⟨⟨jl, hfr⟩, hne, hrest⟩ := h
      exact ⟨⟨jl, { hfr with behind := fun i hi => (hfr.behind i hi).trans_le hlim }⟩, hne, ih hrest hbelow⟩

/-- The frame whose beginning the position has left ends exactly there. -/
theorem aligned_of_left {A k w : Nat} (hw : w ≤ k) (hk : k ≤ bd.g) (hal : 2 ^ (bd.g - k) ∣ A)
    (hleft : (A + 2 ^ (bd.g - k)) / 2 ^ (bd.g - w) ≠ A / 2 ^ (bd.g - w)) :
    2 ^ (bd.g - w) ∣ A + 2 ^ (bd.g - k) := by
  obtain ⟨d, hd⟩ : ∃ d, bd.g - w = (bd.g - k) + d := ⟨k - w, by omega⟩
  obtain ⟨V, rfl⟩ := hal
  have hpos : 0 < 2 ^ (bd.g - k) := Nat.two_pow_pos _
  have hnext : 2 ^ (bd.g - k) * V + 2 ^ (bd.g - k) = 2 ^ (bd.g - k) * (V + 1) := by ring
  rw [hnext, hd, pow_add] at hleft ⊢
  rw [Nat.mul_div_mul_left _ _ hpos, Nat.mul_div_mul_left _ _ hpos, Nat.succ_div] at hleft
  apply Nat.mul_dvd_mul_left
  by_contra hno
  exact hleft (by rw [if_neg hno, Nat.add_zero])

theorem backUp_spec {tables : Tables} {A k : Nat} (hk : k ≤ bd.g) (hal : 2 ^ (bd.g - k) ∣ A)
    (hA : A + 2 ^ (bd.g - k) < 2 ^ bd.g) :
    ∀ {stack : List Frame}, stack ≠ [] →
      StackOK bd tables A (A + 2 ^ (bd.g - k)) (A + 2 ^ (bd.g - k)) stack →
      bd.l * (stack.length - 1) < k →
      2 ^ (bd.g - bd.l * stack.length) ∣ A + 2 ^ (bd.g - k) →
      ∃ stack', bd.backUp (reversed bd.g (A + 2 ^ (bd.g - k))) stack = stack' ∧ stack' ≠ [] ∧
        StackOK bd tables (A + 2 ^ (bd.g - k)) (A + 2 ^ (bd.g - k)) (A + 2 ^ (bd.g - k)) stack' ∧
        2 ^ (bd.g - bd.l * stack'.length) ∣ A + 2 ^ (bd.g - k) ∧
        (stack' = stack ∨ stack'.length < stack.length) := by
  intro stack
  induction stack with
  | nil => exact fun hne => absurd rfl hne
  | cons fr rest ih =>
      intro _ h hshallow haligned
      obtain ⟨⟨jl, hfr⟩, hne, hrest⟩ := h
      rw [List.length_cons, Nat.add_sub_cancel] at hshallow
      have hmask : reversed bd.g (A + 2 ^ (bd.g - k)) &&& (2 ^ (bd.l * rest.length) - 1) =
          reversed (bd.l * rest.length) ((A + 2 ^ (bd.g - k)) / 2 ^ (bd.g - bd.l * rest.length)) := by
        rw [Nat.and_two_pow_sub_one_eq_mod, reversed_mod _ hfr.deep.le]
      rw [backUp, hmask]
      by_cases hsame : (A + 2 ^ (bd.g - k)) / 2 ^ (bd.g - bd.l * rest.length) = A / 2 ^ (bd.g - bd.l * rest.length)
      · have hstop : ¬ (reversed (bd.l * rest.length) ((A + 2 ^ (bd.g - k)) / 2 ^ (bd.g - bd.l * rest.length)) ≠
            fr.pattern) := by
          rw [hsame, hfr.pattern, not_not]
        rw [if_neg hstop]
        refine ⟨fr :: rest, rfl, List.cons_ne_nil _ _, ?_, haligned, Or.inl rfl⟩
        exact StackOK.move (A := A) ⟨⟨jl, hfr⟩, hne, hrest⟩ hsame
      · have hhead (X : Nat) (hX : X < 2 ^ bd.g) : X / 2 ^ (bd.g - bd.l * rest.length) < 2 ^ (bd.l * rest.length) := by
          apply Nat.div_lt_of_lt_mul
          rwa [← pow_add, Nat.sub_add_cancel hfr.deep.le]
        have hgo : reversed (bd.l * rest.length) ((A + 2 ^ (bd.g - k)) / 2 ^ (bd.g - bd.l * rest.length)) ≠
            fr.pattern := by
          intro heq
          apply hsame
          rw [← reversed_reversed _ (hhead _ hA), heq, hfr.pattern,
            reversed_reversed _ (hhead A ((Nat.le_add_right _ _).trans_lt hA))]
        have hbottom : rest ≠ [] := by
          rintro rfl
          apply hsame
          rw [List.length_nil, Nat.mul_zero, Nat.sub_zero, Nat.div_eq_of_lt hA,
            Nat.div_eq_of_lt ((Nat.le_add_right _ _).trans_lt hA)]
        have hshallow' : bd.l * (rest.length - 1) < k :=
          (Nat.mul_le_mul_left _ (Nat.sub_le _ _)).trans_lt hshallow
        obtain ⟨stack', hrun, hne', hstack', hal', hcases⟩ :=
          ih hbottom hrest hshallow' (aligned_of_left hshallow.le hk hal hsame)
        refine ⟨stack', by rw [if_pos hgo, hrun], hne', hstack', hal', Or.inr ?_⟩
        rw [List.length_cons]
        rcases hcases with rfl | hlt
        · exact Nat.lt_succ_self _
        · exact hlt.trans (Nat.lt_succ_self _)

/-! ### One word -/

@[simp]
theorem entry_b (p b : Nat) : (bd.entry p b).b = b := by
  simp only [entry]
  split
  · rfl
  · split <;> rfl

/-- Where the `r`-th word of `k` bits lies. -/
def wordAt (bd : Build) (k r : Nat) : Nat := bd.upTo (k - 1) + r * 2 ^ (bd.g - k)

/-- On every buffer that begins with the `r`-th word of `k` bits the walk reads that word and comes to its entry. -/
def Placed (bd : Build) (tables : Tables) (k r : Nat) : Prop :=
  ∃ w b, w + b = k ∧ 0 < b ∧ ∀ B, B % 2 ^ k = reversed bd.g (bd.wordAt k r) →
    Yields tables bd.l B (bd.entry (total bd.cnt (k - 1) + r) b) w

theorem Placed.mono {old new : Tables} {k r : Nat} (h : Placed bd old k r) (hext : Extends old new) :
    Placed bd new k r := by
  obtain ⟨w, b, hk, hb, hy⟩ := h
  exact ⟨w, b, hk, hb, fun B hB => (hy B hB).mono hext⟩

/-- The places of a word in its table, seen as positions: they begin at the word. -/
theorem stride_start {A g k x : Nat} (hk : k ≤ g) (hal : 2 ^ (g - k) ∣ A) (hA : A < 2 ^ g) :
    reversed g (reversed g A + 2 ^ k * x) = A + reversed (g - k) x := by
  have hV : A / 2 ^ (g - k) < 2 ^ k := by
    apply Nat.div_lt_of_lt_mul
    rwa [← pow_add, Nat.sub_add_cancel hk]
  have hcode : reversed g A = reversed k (A / 2 ^ (g - k)) := reversed_aligned hk hal
  have hsplit : reversed (k + (g - k)) (reversed k (A / 2 ^ (g - k)) + 2 ^ k * x) =
      reversed k (reversed k (A / 2 ^ (g - k))) * 2 ^ (g - k) + reversed (g - k) x := reversed_split (reversed_lt _ _)
  rw [Nat.add_sub_cancel' hk] at hsplit
  rw [hcode, hsplit, reversed_reversed k hV, Nat.div_mul_cancel hal]

/-- The top table after a word has been put in it. -/
theorem at_filled {tables : Tables} {q i f i' : Nat} {r : Huft} (hq : q < tables.length) (hf : 0 < f) :
    Tables.at (tables.modify q fun u =>
        strideFill r f (tables.getD q []).length (tables.getD q []).length i u) q i' =
      if i ≤ i' ∧ i' < (tables.getD q []).length ∧ (i' - i) % f = 0 then r else tables.at q i' := by
  rw [Tables.at, getD_modify_self hq, getD_strideFill r hf _ _ _ _ rfl (Nat.le_add_left _ _), Tables.at]

/-- The entries of a word are not written before. -/
theorem free_of_stride {tables : Tables} {A k m jl i : Nat} {fr : Frame} (h : FrameOK bd tables A A m fr jl)
    (hmk : bd.l * m ≤ k) (hk : k ≤ bd.g) (hal : 2 ^ (bd.g - k) ∣ A) (hA : A < 2 ^ bd.g)
    (hle : reversed bd.g A / 2 ^ (bd.l * m) ≤ i)
    (hmod : (i - reversed bd.g A / 2 ^ (bd.l * m)) % 2 ^ (k - bd.l * m) = 0) :
    (tables.at fr.table i).b = 0 ∧
      reversed bd.g (fr.pattern + 2 ^ (bd.l * m) * i) < A + 2 ^ (bd.g - k) := by
  obtain ⟨x, hx⟩ := Nat.dvd_of_mod_eq_zero hmod
  have hi : i = reversed bd.g A / 2 ^ (bd.l * m) + 2 ^ (k - bd.l * m) * x := by omega
  have hpow : 2 ^ (bd.l * m) * (2 ^ (k - bd.l * m) * x) = 2 ^ k * x := by
    rw [← Nat.mul_assoc, ← pow_add, Nat.add_sub_cancel' hmk]
  have hstart : reversed bd.g (fr.pattern + 2 ^ (bd.l * m) * i) = A + reversed (bd.g - k) x := by
    rw [hi, Nat.mul_add, hpow, ← Nat.add_assoc, h.pattern_eq, Nat.mod_add_div, stride_start hk hal hA]
  constructor
  · by_contra hne
    have hlt := h.behind i (Nat.pos_of_ne_zero hne)
    rw [hstart] at hlt
    exact absurd hlt (Nat.not_lt.mpr (Nat.le_add_right _ _))
  · rw [hstart]
    exact Nat.add_lt_add_left (reversed_lt _ _) A

/-- What a buffer that begins with the word looks at in the word's table is one of its entries. -/
theorem stride_of_buffer {B i k w jl : Nat} (hB : B % 2 ^ k = i) (hw : w ≤ k) (hjl : k ≤ w + jl) :
    i / 2 ^ w ≤ B / 2 ^ w % 2 ^ jl ∧ (B / 2 ^ w % 2 ^ jl - i / 2 ^ w) % 2 ^ (k - w) = 0 := by
  have hlow : B / 2 ^ w % 2 ^ jl % 2 ^ (k - w) = i / 2 ^ w := by
    rw [Nat.mod_mod_of_dvd _ (Nat.pow_dvd_pow 2 (by omega)), ← hB]
    obtain ⟨d, rfl⟩ : ∃ d, k = w + d := ⟨k - w, by omega⟩
    rw [Nat.add_sub_cancel_left, pow_add, Nat.mod_mul_right_div_self]
  constructor
  · rw [← hlow]
    exact Nat.mod_le _ _
  · rw [← hlow]
    exact Nat.sub_mod_eq_zero_of_mod_eq (Nat.mod_mod _ _).symm

/-- A word is put in the top table; then the position is behind it. -/
theorem placeCode_spec {st : Gen} {A k r : Nat} (h : Inv bd st A k) (htop : TopOK st)
    (hk : k ≤ bd.l * st.stack.length) (hkg : k ≤ bd.g) (hword : A = bd.wordAt k r)
    (hal : 2 ^ (bd.g - k) ∣ A) (hA : A + 2 ^ (bd.g - k) ≤ 2 ^ bd.g) (hp : st.p = total bd.cnt (k - 1) + r) :
    Extends st.tables (bd.placeCode k st).tables ∧ Placed bd (bd.placeCode k st).tables k r ∧
      (bd.placeCode k st).p = st.p + 1 ∧
      (A + 2 ^ (bd.g - k) < 2 ^ bd.g → Inv bd (bd.placeCode k st) (A + 2 ^ (bd.g - k)) k) := by
  obtain ⟨fr, rest, hstack, hq, hz⟩ := htop
  obtain ⟨⟨jl, hfr⟩, hdistinct, hrest⟩ : StackOK bd st.tables A A (A + 1) (fr :: rest) := hstack ▸ h.stack
  obtain ⟨i, hi⟩ : ∃ i, i = reversed bd.g A / 2 ^ (bd.l * rest.length) := ⟨_, rfl⟩
  have hApos : 0 < 2 ^ (bd.g - k) := Nat.two_pow_pos _
  have hAlt : A < 2 ^ bd.g := by omega
  have hshallow : bd.l * rest.length < k := by
    have hs := h.shallow
    rwa [hstack, List.length_cons, Nat.add_sub_cancel] at hs
  rw [hstack, List.length_cons, Nat.mul_succ] at hk
  have hfits : k ≤ bd.l * rest.length + jl :=
    hfr.fits (by rw [hword, wordAt]; exact Nat.le_add_right _ _) hk
  obtain ⟨e, he⟩ : ∃ e, e = bd.entry st.p (k - bd.l * rest.length) := ⟨_, rfl⟩
  obtain ⟨T, hT⟩ : ∃ T : Tables, T = st.tables.modify fr.table fun u =>
      strideFill e (2 ^ (k - bd.l * rest.length)) (st.tables.getD fr.table []).length
        (st.tables.getD fr.table []).length i u := ⟨_, rfl⟩
  have hplace : bd.placeCode k st =
      { st with
        tables := T, i := backInc k st.i, p := st.p + 1, stack := bd.backUp (backInc k st.i) (fr :: rest) } := by
    simp only [placeCode, hstack, List.length_cons, Nat.add_sub_cancel, hT, he, hi, hq, hz, h.code,
      Nat.shiftRight_eq_div_pow]
  have hentries (i' : Nat) : T.at fr.table i' =
      if i ≤ i' ∧ i' < (st.tables.getD fr.table []).length ∧ (i' - i) % 2 ^ (k - bd.l * rest.length) = 0 then e
      else st.tables.at fr.table i' := by
    rw [hT, at_filled hfr.inside (Nat.two_pow_pos _)]
  have hother (t : Nat) (hne : t ≠ fr.table) : T.getD t [] = st.tables.getD t [] := by
    rw [hT, getD_modify_of_ne _ hne]
  have hlen : T.length = st.tables.length := by rw [hT, List.length_modify]
  have hsize : (T.getD fr.table []).length = (st.tables.getD fr.table []).length := by
    rw [hT, getD_modify_self hfr.inside, length_strideFill]
  have hext : Extends st.tables T := by
    intro t i' hb
    by_cases ht : t = fr.table
    · subst ht
      rw [hentries, if_neg]
      rintro ⟨hle, -, hmod⟩
      rw [hi] at hle hmod
      exact hb.ne' (free_of_stride hfr hshallow.le hkg hal hAlt hle hmod).1
    · rw [Tables.at, hother t ht, Tables.at]
  have hnext : reversed bd.g (A + 2 ^ (bd.g - k)) = backInc k st.i := by
    have hal' : 2 ^ (bd.g - k) ∣ A + 2 ^ (bd.g - k) := hal.add dvd_rfl
    have hV : A / 2 ^ (bd.g - k) < 2 ^ k := by
      apply Nat.div_lt_of_lt_mul
      rwa [← pow_add, Nat.sub_add_cancel hkg]
    rw [h.code, reversed_aligned hkg hal, backInc_reversed k hV, reversed_aligned hkg hal',
      Nat.add_div_right _ hApos]
  rw [hplace]
  refine ⟨hext, ?_, rfl, ?_⟩
  · refine ⟨bd.l * rest.length, k - bd.l * rest.length, Nat.add_sub_cancel' hshallow.le,
      Nat.sub_pos_of_lt hshallow, ?_⟩
    intro B hB
    rw [← hword] at hB
    rw [← hp, ← he]
    obtain ⟨hle, hmod⟩ := stride_of_buffer hB hshallow.le hfits
    have hpat : B % 2 ^ (bd.l * rest.length) = fr.pattern := by
      rw [hfr.pattern_eq, ← hB, Nat.mod_mod_of_dvd _ (Nat.pow_dvd_pow 2 hshallow.le)]
    have hin : B / 2 ^ (bd.l * rest.length) % 2 ^ jl < (st.tables.getD fr.table []).length :=
      (Nat.mod_lt _ (Nat.two_pow_pos _)).trans_le hfr.size
    refine ⟨fr.table, jl, (hfr.reach B hpat).mono hext, ?_, ?_, ?_⟩
    · rw [hentries, if_pos ⟨hi ▸ hle, hin, hi ▸ hmod⟩]
    · rw [he, entry_b]
      exact Nat.sub_pos_of_lt hshallow
    · rw [he, entry_b]
      omega
  · intro hlt
    have htopfr : FrameOK bd T A (A + 2 ^ (bd.g - k)) rest.length fr jl :=
      { inside := hlen ▸ hfr.inside
        deep := hfr.deep
        pattern := hfr.pattern
        reach := fun B hB => (hfr.reach B hB).mono hext
        size := hsize ▸ hfr.size
        narrow := hfr.narrow
        wide := hfr.wide
        behind := by
          intro i' hi'
          rw [hentries] at hi'
          split at hi'
          case isTrue hnew =>
            exact (free_of_stride hfr hshallow.le hkg hal hAlt (hi ▸ hnew.1) (hi ▸ hnew.2.2)).2
          case isFalse => exact (hfr.behind i' hi').trans (Nat.lt_add_of_pos_right hApos) }
    have hall : StackOK bd T A (A + 2 ^ (bd.g - k)) (A + 2 ^ (bd.g - k)) (fr :: rest) := by
      refine ⟨⟨jl, htopfr⟩, hdistinct, ?_⟩
      exact (hrest.extend hext hlen.ge fun fr' hmem => hother fr'.table (hdistinct fr' hmem)).below
        (Nat.add_le_add_left hApos A) (Nat.add_le_add_left hApos A)
    have hal' : 2 ^ (bd.g - bd.l * (fr :: rest).length) ∣ A + 2 ^ (bd.g - k) := by
      have hpow : 2 ^ (bd.g - bd.l * (fr :: rest).length) ∣ 2 ^ (bd.g - k) := by
        apply Nat.pow_dvd_pow 2
        rw [List.length_cons, Nat.mul_succ]
        omega
      exact hpow.trans (hal.add dvd_rfl)
    have hshallow' : bd.l * ((fr :: rest).length - 1) < k := hshallow
    obtain ⟨stack', hback, hne, hstack', halign, hcases⟩ :=
      backUp_spec hkg hal hlt (List.cons_ne_nil fr rest) hall hshallow' hal'
    rw [hnext] at hback
    have hshorter : bd.l * (stack'.length - 1) ≤ bd.l * rest.length := by
      apply Nat.mul_le_mul_left
      rcases hcases with rfl | hlt'
      · rfl
      · rw [List.length_cons] at hlt'
        omega
    constructor
    · exact hnext.symm
    · rw [hback]
      exact hstack'.below le_rfl (Nat.le_succ _)
    · rw [hback]
      exact fun hnil => absurd hnil hne
    · rw [hback]
      exact halign
    · rw [hback]
      exact hshorter.trans_lt hshallow
    · rcases hcases with hsame | hlt'
      · refine Or.inl ⟨fr, rest, hback.trans hsame, hq, ?_⟩
        rw [hz]
        exact hsize.symm
      · refine Or.inr ?_
        rw [hback]
        rw [List.length_cons] at hlt'
        exact (Nat.mul_le_mul_left bd.l (Nat.le_of_lt_succ hlt')).trans_lt hshallow

/-! ### The whole loop -/

/-- Every word before the `r`-th of `k` bits is in the tables. -/
def Done (bd : Build) (tables : Tables) (k r : Nat) : Prop :=
  ∀ k' r', 1 ≤ k' → r' < bd.cnt k' → (k' < k ∨ (k' = k ∧ r' < r)) → Placed bd tables k' r'

theorem Done.mono {old new : Tables} {k r : Nat} (h : Done bd old k r) (hext : Extends old new) : Done bd new k r :=
  fun k' r' h1 hr hbefore => (h k' r' h1 hr hbefore).mono hext

/-- The state before the `r`-th word of `k` bits. -/
structure Making (bd : Build) (st : Gen) (k r : Nat) : Prop where
  inv : bd.wordAt k r < 2 ^ bd.g → Inv bd st (bd.wordAt k r) k
  done : Done bd st.tables k r
  count : st.p = total bd.cnt (k - 1) + r

theorem wordAt_dvd (k r : Nat) : 2 ^ (bd.g - k) ∣ bd.wordAt k r := by
  have hpow : 2 ^ (bd.g - k) ∣ 2 ^ (bd.g - (k - 1)) := Nat.pow_dvd_pow 2 (by omega)
  exact (hpow.trans (mass_dvd (k - 1))).add (Dvd.intro_left _ rfl)

theorem wordAt_succ (k r : Nat) : bd.wordAt k (r + 1) = bd.wordAt k r + 2 ^ (bd.g - k) := by
  rw [wordAt, wordAt]
  ring

theorem wordAt_last {k : Nat} (hk : 1 ≤ k) : bd.wordAt k (bd.cnt k) = bd.upTo k := by
  obtain ⟨k, rfl⟩ : ∃ n, k = n + 1 := ⟨k - 1, by omega⟩
  rw [wordAt, Nat.add_sub_cancel, upTo_succ]

theorem wordAt_left {k r a : Nat} (hk : 1 ≤ k) (hr : r + a = bd.cnt k) :
    bd.wordAt k r + a * 2 ^ (bd.g - k) = bd.upTo k := by
  rw [← wordAt_last hk, wordAt, wordAt, ← hr]
  ring

theorem codesOf_spec (hs : bd.Sound) {k : Nat} (hk : 1 ≤ k) (hkg : k ≤ bd.g) :
    ∀ (a : Nat) {st : Gen} {r : Nat}, r + a = bd.cnt k → Making bd st k r →
      Making bd (bd.codesOf k a st) k (bd.cnt k) := by
  intro a
  induction a with
  | zero =>
      intro st r hr h
      rw [Nat.add_zero] at hr
      rw [← hr]
      exact h
  | succ a ih =>
      intro st r hr h
      have hleft : bd.wordAt k r + (a + 1) * 2 ^ (bd.g - k) = bd.upTo k := wordAt_left hk hr
      have hroom : bd.wordAt k r + 2 ^ (bd.g - k) ≤ 2 ^ bd.g := by
        have hle := upTo_le hs hkg
        rw [Nat.add_mul, Nat.one_mul] at hleft
        omega
      have hApos : 0 < 2 ^ (bd.g - k) := Nat.two_pow_pos _
      have hlt : bd.wordAt k r < 2 ^ bd.g := by omega
      obtain ⟨hinv, htop, hdeep, hext, hp⟩ :=
        openTables_spec hs hkg hlt hleft (by omega) k (h.inv hlt) (Nat.le_add_left _ _)
      obtain ⟨hext', hplaced, hp', hinv'⟩ :=
        placeCode_spec hinv htop hdeep hkg rfl (wordAt_dvd k r) hroom (hp.trans h.count)
      rw [codesOf]
      apply ih (r := r + 1) (by omega)
      constructor
      · rw [wordAt_succ]
        exact hinv'
      · intro k' r' h1 hr' hbefore
        by_cases hnow : k' = k ∧ r' = r
        · rw [hnow.1, hnow.2]
          exact hplaced
        · exact ((h.done k' r' h1 hr' (by omega)).mono hext).mono hext'
      · rw [hp', hp, h.count]
        rfl

theorem lengthsFrom_spec (hs : bd.Sound) :
    ∀ (rounds : Nat) {st : Gen} {k : Nat}, 1 ≤ k → k + rounds ≤ bd.g + 1 → Making bd st k 0 →
      Done bd (bd.lengthsFrom rounds k st).tables (k + rounds) 0 := by
  intro rounds
  induction rounds with
  | zero => exact fun _ _ h => h.done
  | succ rounds ih =>
      intro st k hk hrounds h
      have hcodes := codesOf_spec hs hk (by omega) (bd.cnt k) (Nat.zero_add _) h
      have hcnt : bd.cnt k = bd.c.getD k 0 := cnt_pos (by omega)
      have hnext : bd.wordAt (k + 1) 0 = bd.wordAt k (bd.cnt k) := by
        rw [wordAt_last hk, wordAt, Nat.add_sub_cancel, Nat.zero_mul, Nat.add_zero]
      rw [lengthsFrom, show k + (rounds + 1) = k + 1 + rounds by omega, ← hcnt]
      apply ih (by omega) (by omega)
      constructor
      · rw [hnext]
        exact fun hlt => (hcodes.inv hlt).mono (Nat.le_succ k)
      · intro k' r' h1 hr' hbefore
        apply hcodes.done k' r' h1 hr'
        rcases hbefore with hlt | ⟨-, hno⟩
        · rcases Nat.lt_or_ge k' k with hlt' | hge
          · exact Or.inl hlt'
          · have heq : k' = k := by omega
            exact Or.inr ⟨heq, heq ▸ hr'⟩
        · exact absurd hno (Nat.not_lt_zero r')
      · rw [hcodes.count, Nat.add_zero, Nat.add_sub_cancel]
        obtain ⟨k, rfl⟩ : ∃ n, k = n + 1 := ⟨k - 1, by omega⟩
        rfl

/-- Every word is in the tables, under the value the loop has for it. -/
theorem generate_spec (hs : bd.Sound) {k : Nat} (hk : 1 ≤ k) (hkg : k ≤ bd.g) (hempty : ∀ j < k, bd.cnt j = 0)
    (k' r' : Nat) (hk' : 1 ≤ k') (hkg' : k' ≤ bd.g) (hr' : r' < bd.cnt k') : Placed bd (bd.generate k) k' r' := by
  have hmass : ∀ n < k, bd.upTo n = 0 ∧ total bd.cnt n = 0 := by
    intro n
    induction n with
    | zero => exact fun _ => ⟨rfl, rfl⟩
    | succ n ih =>
        intro hn
        obtain ⟨hup, htot⟩ := ih (by omega)
        rw [upTo_succ, total, hup, htot, hempty (n + 1) hn, Nat.zero_mul]
        exact ⟨rfl, rfl⟩
  obtain ⟨hup, htot⟩ := hmass (k - 1) (by omega)
  have hstart : Making bd ⟨[], [], 0, 0, 0, 0⟩ k 0 := by
    constructor
    · rw [wordAt, hup, Nat.zero_mul]
      exact fun _ => inv_start hk
    · intro k'' r'' _ hr'' hbefore
      have hlt : k'' < k := by omega
      rw [hempty k'' hlt] at hr''
      exact absurd hr'' (Nat.not_lt_zero r'')
    · rw [htot]
  have hdone := lengthsFrom_spec hs (bd.g + 1 - k) hk (by omega) hstart
  exact hdone k' r' hk' hr' (Or.inl (by omega))

end Build

end Cromwell.Gzip
