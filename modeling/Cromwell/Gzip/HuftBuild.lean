/-
Module: Cromwell.Gzip.HuftBuild
Layer: Proofs
Purpose: `huft_build` as a whole: the result code says whether the lengths over- or underfill the code space, and
  whenever tables are made they lead from the word of a symbol to the entry of that symbol.
Imports: Cromwell.Gzip.HuftTables
Trusted boundary: none
Main exports: symbolEntry, huftBuild_code, huftBuild_yields
-/
import Cromwell.Gzip.HuftTables

namespace Cromwell.Gzip

open BitString Canonical

/-! ### Counting the lengths -/

theorem foldl_count (b : List Nat) :
    ∀ (c : List Nat), (∀ x ∈ b, x < c.length) →
      (b.foldl (fun c p => c.set p (c.getD p 0 + 1)) c).length = c.length ∧
        ∀ k, (b.foldl (fun c p => c.set p (c.getD p 0 + 1)) c).getD k 0 = c.getD k 0 + b.count k := by
  induction b with
  | nil => exact fun c _ => ⟨rfl, fun k => rfl⟩
  | cons p b ih =>
      intro c hb
      have hp : p < c.length := hb p List.mem_cons_self
      obtain ⟨hlen, hcount⟩ := ih (c.set p (c.getD p 0 + 1))
        (fun x hx => by rw [List.length_set]; exact hb x (List.mem_cons_of_mem _ hx))
      rw [List.foldl_cons]
      refine ⟨by rw [hlen, List.length_set], ?_⟩
      intro k
      rw [hcount]
      by_cases hk : k = p
      · subst hk
        rw [List.getD_eq_getElem _ _ (by rwa [List.length_set]), List.getElem_set_self, List.count_cons_self]
        ring
      · rw [List.getD_eq_getElem?_getD, List.getElem?_set_ne (fun e => hk e.symm), ← List.getD_eq_getElem?_getD,
          List.count_cons_of_ne (fun e => hk e.symm)]

theorem length_countLengths {b : List Nat} (h : ∀ x ∈ b, x ≤ bmax) : (countLengths b).length = bmax + 1 := by
  have hb : ∀ x ∈ b, x < (List.replicate (bmax + 1) 0).length := by
    intro x hx
    rw [List.length_replicate]
    exact Nat.lt_succ_of_le (h x hx)
  rw [countLengths, (foldl_count b _ hb).1, List.length_replicate]

/-- `c[k]` is how many codes have length `k`. -/
theorem getD_countLengths {b : List Nat} (h : ∀ x ∈ b, x ≤ bmax) (k : Nat) :
    (countLengths b).getD k 0 = b.count k := by
  have hb : ∀ x ∈ b, x < (List.replicate (bmax + 1) 0).length := by
    intro x hx
    rw [List.length_replicate]
    exact Nat.lt_succ_of_le (h x hx)
  have hzero : (List.replicate (bmax + 1) 0).getD k 0 = 0 := by
    rw [List.getD_eq_getElem?_getD, List.getElem?_replicate]
    split <;> rfl
  rw [countLengths, (foldl_count b _ hb).2, hzero, Nat.zero_add]

theorem firstUsed_spec (c : List Nat) :
    ∀ (rounds j : Nat), (∃ i, j ≤ i ∧ i < j + rounds ∧ c.getD i 0 ≠ 0) →
      j ≤ firstUsed c rounds j ∧ firstUsed c rounds j < j + rounds ∧ c.getD (firstUsed c rounds j) 0 ≠ 0 ∧
        ∀ i, j ≤ i → i < firstUsed c rounds j → c.getD i 0 = 0 := by
  intro rounds
  induction rounds with
  | zero =>
      rintro j ⟨i, hlo, hhi, -⟩
      omega
  | succ rounds ih =>
      rintro j ⟨i, hlo, hhi, hi⟩
      rw [firstUsed]
      by_cases hj : c.getD j 0 ≠ 0
      · rw [if_pos hj]
        exact ⟨le_rfl, by omega, hj, fun i hlo hhi => by omega⟩
      · have hne : i ≠ j := by
          rintro rfl
          exact hj hi
        obtain ⟨h1, h2, h3, h4⟩ := ih (j + 1) ⟨i, by omega, by omega, hi⟩
        rw [if_neg hj]
        refine ⟨by omega, by omega, h3, ?_⟩
        intro i' hlo' hhi'
        by_cases hi' : i' = j
        · rw [hi']
          exact not_not.mp hj
        · exact h4 i' (by omega) hhi'

theorem lastUsed_spec (c : List Nat) :
    ∀ i, (lastUsed c i = 0 ∨ c.getD (lastUsed c i) 0 ≠ 0) ∧ lastUsed c i ≤ i ∧
      ∀ k, lastUsed c i < k → k ≤ i → c.getD k 0 = 0 := by
  intro i
  induction i with
  | zero => exact ⟨Or.inl rfl, le_rfl, fun k hlo hhi => absurd hlo (by omega)⟩
  | succ i ih =>
      obtain ⟨h1, h2, h3⟩ := ih
      rw [lastUsed]
      by_cases hi : c.getD (i + 1) 0 ≠ 0
      · rw [if_pos hi]
        exact ⟨Or.inr hi, le_rfl, fun k hlo hhi => by omega⟩
      · rw [if_neg hi]
        refine ⟨h1, by omega, ?_⟩
        intro k hlo hhi
        by_cases hk : k = i + 1
        · rw [hk]
          exact not_not.mp hi
        · exact h3 k hlo (by omega)

/-! ### Filling the code out -/

theorem fillOut_spec {c : List Nat} {f : Nat → Nat} {g : Nat} (hf : ∀ k, 1 ≤ k → f k = c.getD k 0) :
    ∀ (rounds j y : Nat), 1 ≤ j → j + rounds = g → y * 2 ^ (g - j) + mass f g (j - 1) = 2 ^ g →
      (fillOut c rounds j y = none ∧ 2 ^ g < mass f g g) ∨
        ∃ y', fillOut c rounds j y = some y' ∧ y' + mass f g g = 2 ^ g := by
  have hstep (j : Nat) (hj : 1 ≤ j) : mass f g j = mass f g (j - 1) + c.getD j 0 * 2 ^ (g - j) := by
    obtain ⟨j, rfl⟩ : ∃ n, j = n + 1 := ⟨j - 1, by omega⟩
    rw [mass, Nat.add_sub_cancel, hf (j + 1) (by omega)]
  have hover (j y : Nat) (hj : 1 ≤ j) (hy : y * 2 ^ (g - j) + mass f g (j - 1) = 2 ^ g) (hlt : y < c.getD j 0) :
      2 ^ g < mass f g j := by
    have hmul : y * 2 ^ (g - j) < c.getD j 0 * 2 ^ (g - j) := Nat.mul_lt_mul_of_pos_right hlt (Nat.two_pow_pos _)
    rw [hstep j hj]
    omega
  intro rounds
  induction rounds with
  | zero =>
      intro j y hj hg hy
      rw [fillOut]
      by_cases hlt : y < c.getD j 0
      · rw [if_pos hlt]
        have hover' := hover j y hj hy hlt
        rw [show j = g by omega] at hover'
        exact Or.inl ⟨rfl, hover'⟩
      · rw [if_neg hlt]
        refine Or.inr ⟨_, rfl, ?_⟩
        have hm := hstep j hj
        rw [show g - j = 0 by omega, Nat.pow_zero, Nat.mul_one] at hy hm
        rw [show mass f g g = mass f g j by rw [show j = g by omega], hm]
        omega
  | succ rounds ih =>
      intro j y hj hg hy
      rw [fillOut]
      by_cases hlt : y < c.getD j 0
      · rw [if_pos hlt]
        exact Or.inl ⟨rfl, (hover j y hj hy hlt).trans_le (mass_mono (by omega))⟩
      · rw [if_neg hlt]
        apply ih (j + 1) _ (by omega) (by omega)
        have hpow : 2 ^ (g - j) = 2 * 2 ^ (g - (j + 1)) := by
          rw [← pow_succ']
          congr 1
          omega
        rw [Nat.add_sub_cancel, hstep j hj, Nat.mul_assoc, ← hpow, Nat.sub_mul]
        have hle : c.getD j 0 * 2 ^ (g - j) ≤ y * 2 ^ (g - j) := Nat.mul_le_mul_right _ (Nat.le_of_not_lt hlt)
        omega

/-! ### The values in order of length -/

theorem offsetsLoop_spec {c : List Nat} {f : Nat → Nat} (hf : ∀ k, 1 ≤ k → f k = c.getD k 0) :
    ∀ (rounds k j : Nat) (x : List Nat), 1 ≤ k → k + rounds < x.length → j = total f (k - 1) →
      (∀ i, 1 ≤ i → i ≤ k → x.getD i 0 = total f (i - 1)) →
      (offsetsLoop c rounds k j x).length = x.length ∧
        ∀ i, 1 ≤ i → i ≤ k + rounds → (offsetsLoop c rounds k j x).getD i 0 = total f (i - 1) := by
  intro rounds
  induction rounds with
  | zero => exact fun k j x _ _ _ hx => ⟨rfl, hx⟩
  | succ rounds ih =>
      intro k j x hk hlen hj hx
      have hnext : j + c.getD k 0 = total f k := by
        obtain ⟨k, rfl⟩ : ∃ n, k = n + 1 := ⟨k - 1, by omega⟩
        rw [hj, total, hf (k + 1) (by omega), Nat.add_sub_cancel]
      obtain ⟨hlen', hget⟩ := ih (k + 1) (j + c.getD k 0) (x.set (k + 1) (j + c.getD k 0)) (by omega)
        (by rw [List.length_set]; omega) hnext (by
          intro i hlo hhi
          by_cases hi : i = k + 1
          · subst hi
            rw [List.getD_eq_getElem _ _ (by rw [List.length_set]; omega), List.getElem_set_self, hnext]
            rfl
          · rw [List.getD_eq_getElem?_getD, List.getElem?_set_ne (fun e => hi e.symm),
              ← List.getD_eq_getElem?_getD]
            exact hx i hlo (by omega))
      rw [offsetsLoop]
      refine ⟨hlen'.trans List.length_set, ?_⟩
      intro i hlo hhi
      exact hget i hlo (by omega)

/-- `v[]` gets every symbol that has a length, ordered by length and then by symbol. -/
theorem valuesLoop_spec {f : Nat → Nat} {g : Nat} :
    ∀ (b done x v : List Nat), (∀ k, 1 ≤ k → f k = (done ++ b).count k) → (∀ k ∈ done ++ b, k ≤ g) →
      g < x.length → total f g ≤ v.length →
      (∀ k, 1 ≤ k → k ≤ g → x.getD k 0 = total f (k - 1) + done.count k) →
      (∀ s < done.length, done.getD s 0 ≠ 0 →
        v.getD (total f (done.getD s 0 - 1) + (done.take s).count (done.getD s 0)) 0 = s) →
      ∀ s < (done ++ b).length, (done ++ b).getD s 0 ≠ 0 →
        (valuesLoop b done.length x v).getD
          (total f ((done ++ b).getD s 0 - 1) + ((done ++ b).take s).count ((done ++ b).getD s 0)) 0 = s := by
  intro b
  induction b with
  | nil =>
      intro done x v _ _ _ _ _ hv
      rw [List.append_nil]
      exact hv
  | cons j b ih =>
      intro done x v hf hle hx hlen hoff hv
      have hsplit : done ++ j :: b = (done ++ [j]) ++ b := by rw [List.append_assoc, List.singleton_append]
      have hlast : (done ++ [j]).getD done.length 0 = j := by
        rw [List.getD_append_right _ _ _ _ le_rfl, Nat.sub_self, List.getD_cons_zero]
      have hold (s : Nat) (hs : s < done.length) : (done ++ [j]).getD s 0 = done.getD s 0 :=
        List.getD_append _ _ _ _ hs
      have htake (s : Nat) (hs : s ≤ done.length) : (done ++ [j]).take s = done.take s :=
        List.take_append_of_le_length hs
      have hnextlen : done.length + 1 = (done ++ [j]).length := by
        rw [List.length_append, List.length_singleton]
      rw [hsplit] at hf hle ⊢
      rw [valuesLoop]
      by_cases hj : j ≠ 0
      · rw [if_pos hj, hnextlen]
        have hjg : j ≤ g := hle j (by simp)
        have hcount : done.count j < f j := by
          rw [hf j (by omega), List.count_append, List.count_append, List.count_singleton_self]
          omega
        have htotal : total f (j - 1) + f j = total f j := by
          obtain ⟨j, rfl⟩ : ∃ n, j = n + 1 := ⟨j - 1, by omega⟩
          rfl
        have hplace : x.getD j 0 = total f (j - 1) + done.count j := hoff j (by omega) hjg
        have hroom : x.getD j 0 < v.length := by
          have hmono : total f j ≤ total f g := total_mono hjg
          omega
        apply ih (done ++ [j]) _ _ hf hle (by rwa [List.length_set]) (by rwa [List.length_set])
        · intro k hk hkg
          by_cases hkj : k = j
          · subst hkj
            rw [List.getD_eq_getElem _ _ (by rw [List.length_set]; omega), List.getElem_set_self, hplace,
              List.count_append, List.count_singleton_self, Nat.add_assoc]
          · rw [List.getD_eq_getElem?_getD, List.getElem?_set_ne (fun e => hkj e.symm),
              ← List.getD_eq_getElem?_getD, hoff k hk hkg, List.count_append,
              List.count_eq_zero_of_not_mem (l := [j]) (by simpa using hkj), Nat.add_zero]
        · intro s hs hne
          rw [← hnextlen] at hs
          by_cases hsl : s = done.length
          · subst hsl
            rw [hlast, htake _ le_rfl, List.take_length, ← hplace,
              List.getD_eq_getElem _ _ (by rwa [List.length_set]), List.getElem_set_self]
          · have hs' : s < done.length := by omega
            rw [hold s hs'] at hne ⊢
            rw [htake s hs'.le]
            -- an earlier symbol has another place
            have hsg : done.getD s 0 ≤ g := hle _ (by
              rw [List.getD_eq_getElem _ _ hs']
              exact List.mem_append_left _ (List.mem_append_left _ (List.getElem_mem hs')))
            have hrank : (done.take s).count (done.getD s 0) < done.count (done.getD s 0) := by
              have h : (done.take s).count (done.getD s 0) < lengthCount done (done.getD s 0) := rank_lt hs' hne
              rwa [lengthCount, if_neg hne] at h
            have hfs : done.count (done.getD s 0) ≤ f (done.getD s 0) := by
              rw [hf _ (by omega), List.count_append, List.count_append]
              omega
            have htot : total f (done.getD s 0 - 1) + f (done.getD s 0) = total f (done.getD s 0) := by
              obtain ⟨n, hn⟩ : ∃ n, done.getD s 0 = n + 1 := ⟨done.getD s 0 - 1, by omega⟩
              rw [hn]
              rfl
            have hdiff : x.getD j 0 ≠ total f (done.getD s 0 - 1) + (done.take s).count (done.getD s 0) := by
              rw [hplace]
              rcases Nat.lt_trichotomy (done.getD s 0) j with hlt | heq | hgt
              · have hmono : total f (done.getD s 0) ≤ total f (j - 1) := total_mono (by omega)
                omega
              · rw [heq] at hrank ⊢
                omega
              · have hmono : total f j ≤ total f (done.getD s 0 - 1) := total_mono (by omega)
                omega
            rw [List.getD_eq_getElem?_getD, List.getElem?_set_ne hdiff, ← List.getD_eq_getElem?_getD]
            exact hv s hs' hne
      · have hzero : j = 0 := not_not.mp hj
        rw [if_neg hj, hnextlen]
        apply ih (done ++ [j]) _ _ hf hle hx hlen
        · intro k hk hkg
          rw [hoff k hk hkg, List.count_append, List.count_eq_zero_of_not_mem (l := [j]) (by
            simp only [List.mem_singleton]
            omega), Nat.add_zero]
        · intro s hs hne
          rw [← hnextlen] at hs
          by_cases hsl : s = done.length
          · rw [hsl, hlast] at hne
            exact absurd hzero hne
          · have hs' : s < done.length := by omega
            rw [hold s hs'] at hne ⊢
            rw [htake s hs'.le]
            exact hv s hs' hne

/-! ### The whole function -/

/-- The loops of `huft_build` before the tables are made, with `c[]` after `y` was added to it. -/
def generator (stray : Stray) (b : List Nat) (s : Nat) (d e : List Nat) (g l y : Nat) : Build :=
  let c := (countLengths b).set g ((countLengths b).getD g 0 + y)
  ⟨c, g, l, b.length, s, valuesLoop b 0 (offsets c g) stray.v, d, e, stray⟩

section whole

variable {stray : Stray} {b : List Nat} {s m : Nat} {d e : List Nat}

theorem lengthCount_eq (hlens : ∀ x ∈ b, x ≤ bmax) {k : Nat} (hk : 1 ≤ k) :
    lengthCount b k = (countLengths b).getD k 0 := by
  rw [getD_countLengths hlens, lengthCount, if_neg (by omega)]

/-- There is nothing to do exactly when no symbol has a length. -/
theorem countLengths_zero (hlens : ∀ x ∈ b, x ≤ bmax) :
    (countLengths b).getD 0 0 = b.length ↔ ∀ x ∈ b, x = 0 := by
  rw [getD_countLengths hlens, List.count_eq_length]
  exact ⟨fun h x hx => (h x hx).symm, fun h x hx => (h x hx).symm⟩

variable (stray s m d e) in
/-- What `huft_build` finds out before it makes the tables. -/
theorem huftBuild_cases (hlens : ∀ x ∈ b, x ≤ bmax) (hused : ∃ x ∈ b, x ≠ 0) :
    ∃ g l, 1 ≤ g ∧ g ≤ bmax ∧ g ∈ b ∧ (∀ x ∈ b, x ≤ g) ∧ 1 ≤ l ∧ l ≤ g ∧ (m ≤ l ∨ l = g) ∧
      ((2 ^ g < mass (lengthCount b) g g ∧ huftBuild stray b s d e m = ⟨2, [], l⟩) ∨
        ∃ y j, y + mass (lengthCount b) g g = 2 ^ g ∧ 1 ≤ j ∧ j ≤ g ∧ (∀ i < j, lengthCount b i = 0) ∧
          huftBuild stray b s d e m =
            ⟨if y ≠ 0 ∧ g ≠ 1 then 1 else 0, (generator stray b s d e g l y).generate j, l⟩) := by
  obtain ⟨x, hx, hx0⟩ := hused
  have hin (k : Nat) : (countLengths b).getD k 0 ≠ 0 ↔ k ∈ b := by
    rw [getD_countLengths hlens, ne_eq, List.count_eq_zero, not_not]
  have hxle := hlens x hx
  obtain ⟨hj1, hj2, hj3, hj4⟩ := firstUsed_spec (countLengths b) bmax 1 ⟨x, by omega, by omega, (hin x).mpr hx⟩
  obtain ⟨hg1, hg2, hg3⟩ := lastUsed_spec (countLengths b) bmax
  obtain ⟨j, hj⟩ : ∃ j, j = firstUsed (countLengths b) bmax 1 := ⟨_, rfl⟩
  obtain ⟨g, hg⟩ : ∃ g, g = lastUsed (countLengths b) bmax := ⟨_, rfl⟩
  rw [← hj] at hj1 hj2 hj3 hj4
  rw [← hg] at hg1 hg2 hg3
  have hjmax : j ≤ bmax := by omega
  have hjg : j ≤ g := by
    by_contra hlt
    exact hj3 (hg3 j (Nat.lt_of_not_le hlt) hjmax)
  have hg0 : ¬ g = 0 := by omega
  have hgb : g ∈ b := (hin g).mp (hg1.resolve_left hg0)
  have hmax : ∀ y ∈ b, y ≤ g := by
    intro y hy
    by_contra hlt
    exact (hin y).mpr hy (hg3 y (by omega) (hlens y hy))
  have hempty : ∀ i < j, lengthCount b i = 0 := by
    intro i hi
    by_cases hi0 : i = 0
    · rw [lengthCount, if_pos hi0]
    · rw [lengthCount_eq hlens (by omega)]
      exact hj4 i (by omega) hi
  have hzero : mass (lengthCount b) g (j - 1) = 0 := by
    have h := mass_eq_of_empty (c := lengthCount b) (g := g) (k := 0) (j - 1)
      (fun i _ hi => hempty i (by omega))
    rwa [Nat.zero_add] at h
  have hfill := fillOut_spec (c := countLengths b) (f := lengthCount b) (g := g)
    (fun k hk => lengthCount_eq hlens hk) (g - j) j (2 ^ j) hj1 (by omega)
    (by rw [hzero, ← pow_add, Nat.add_sub_cancel' hjg, Nat.add_zero])
  have hstart : ¬ ((countLengths b).getD 0 0 = b.length) := by
    rw [countLengths_zero hlens]
    exact fun hall => hx0 (hall x hx)
  obtain ⟨l, hl⟩ : ∃ l, l = if (if m < j then j else m) > g then g else if m < j then j else m := ⟨_, rfl⟩
  refine ⟨g, l, by omega, hg2, hgb, hmax, by split at hl <;> split at hl <;> omega,
    by split at hl <;> split at hl <;> omega, by split at hl <;> split at hl <;> omega, ?_⟩
  rcases hfill with ⟨hnone, hover⟩ | ⟨y, hsome, hy⟩
  · refine Or.inl ⟨hover, ?_⟩
    simp only [huftBuild, if_neg hstart, ← hj, ← hg, ← hl, hnone]
  · refine Or.inr ⟨y, j, hy, hj1, hjg, hempty, ?_⟩
    simp only [huftBuild, if_neg hstart, ← hj, ← hg, ← hl, hsome, generator]

/-- On the scale of `BMAX` or of the greatest length: the same part of the code space. -/
theorem kraft_eq {g : Nat} (hg : g ≤ bmax) (hmax : ∀ x ∈ b, x ≤ g) :
    kraft bmax b = 2 ^ (bmax - g) * mass (lengthCount b) g g := by
  have hempty : ∀ i, g < i → i ≤ g + (bmax - g) → lengthCount b i = 0 := by
    intro i hi _
    rw [lengthCount, if_neg (by omega), List.count_eq_zero]
    exact fun hmem => absurd (hmax i hmem) (by omega)
  have hup := mass_eq_of_empty (g := bmax) (k := g) (bmax - g) hempty
  have hscale := mass_scale (c := lengthCount b) (g := g) (k := g) (bmax - g) le_rfl
  rw [Nat.add_sub_cancel' hg] at hup hscale
  rw [kraft, hup, hscale]

/-- The result code: two for more codes than bits, one for fewer unless no code is longer than one bit. -/
theorem huftBuild_code (hlens : ∀ x ∈ b, x ≤ bmax) :
    (huftBuild stray b s d e m).code =
      if ∀ x ∈ b, x = 0 then 0
      else if 2 ^ bmax < kraft bmax b then 2
      else if kraft bmax b < 2 ^ bmax ∧ ∃ x ∈ b, 1 < x then 1 else 0 := by
  by_cases hall : ∀ x ∈ b, x = 0
  · rw [if_pos hall]
    simp only [huftBuild, if_pos ((countLengths_zero hlens).mpr hall)]
  · rw [if_neg hall]
    have hused : ∃ x ∈ b, x ≠ 0 := by
      by_contra hno
      exact hall fun x hx => by_contra fun hne => hno ⟨x, hx, hne⟩
    obtain ⟨g, l, hg1, hg2, hgb, hmax, -, -, -, hcases⟩ :=
      huftBuild_cases stray s m d e hlens hused
    have hscale : kraft bmax b = 2 ^ (bmax - g) * mass (lengthCount b) g g := kraft_eq hg2 hmax
    have hspace : 2 ^ bmax = 2 ^ (bmax - g) * 2 ^ g := by rw [← pow_add, Nat.sub_add_cancel hg2]
    have hpos : 0 < 2 ^ (bmax - g) := Nat.two_pow_pos _
    rw [hscale, hspace]
    rcases hcases with ⟨hover, heq⟩ | ⟨y, j, hy, -, -, -, heq⟩
    · rw [if_pos (Nat.mul_lt_mul_of_pos_left hover hpos), heq]
    · have hle : ¬ 2 ^ (bmax - g) * 2 ^ g < 2 ^ (bmax - g) * mass (lengthCount b) g g := by
        rw [Nat.not_lt]
        exact Nat.mul_le_mul_left _ (by omega)
      have hlong : (∃ x ∈ b, 1 < x) ↔ g ≠ 1 := by
        constructor
        · rintro ⟨x, hx, h1⟩
          have h := hmax x hx
          omega
        · exact fun h => ⟨g, hgb, by omega⟩
      have hshort : 2 ^ (bmax - g) * mass (lengthCount b) g g < 2 ^ (bmax - g) * 2 ^ g ↔ y ≠ 0 := by
        rw [Nat.mul_lt_mul_left hpos]
        omega
      rw [if_neg hle, heq]
      exact if_congr (hshort.and hlong).symm rfl rfl

/-- Two is the only code without tables, and zero the only one for codes that are usable. -/
theorem huftBuild_code_zero (hlens : ∀ x ∈ b, x ≤ bmax)
    (h : kraft bmax b = 2 ^ bmax ∨ (kraft bmax b < 2 ^ bmax ∧ ∀ x ∈ b, x ≤ 1)) :
    (huftBuild stray b s d e m).code = 0 := by
  rw [huftBuild_code hlens]
  by_cases hall : ∀ x ∈ b, x = 0
  · rw [if_pos hall]
  · rw [if_neg hall]
    rcases h with hfull | ⟨hless, hshort⟩
    · rw [if_neg (by omega), if_neg (by omega)]
    · have hno : ¬ (kraft bmax b < 2 ^ bmax ∧ ∃ x ∈ b, 1 < x) := by
        rintro ⟨-, x, hx, h1⟩
        exact absurd (hshort x hx) (by omega)
      rw [if_neg (by omega), if_neg hno]

/-- If no code is longer than the look-up that was asked for, one look-up is enough. -/
theorem huftBuild_bits (hlens : ∀ x ∈ b, x ≤ bmax) (hm : ∀ x ∈ b, x ≤ m) :
    ∀ x ∈ b, x ≤ (huftBuild stray b s d e m).bits := by
  intro x hx
  by_cases hx0 : x = 0
  · rw [hx0]
    exact Nat.zero_le _
  · obtain ⟨g, l, -, -, hgb, hmax, -, hl2, hlm, hcases⟩ :=
      huftBuild_cases stray s m d e hlens ⟨x, hx, hx0⟩
    have hgm := hm g hgb
    have hxg := hmax x hx
    rcases hcases with ⟨-, heq⟩ | ⟨y, j, -, -, -, -, heq⟩
    · rw [heq]
      show x ≤ l
      omega
    · rw [heq]
      show x ≤ l
      omega

/-! ### Every symbol is found -/

/-- The entry of a symbol. -/
def symbolEntry (s : Nat) (d e : List Nat) (sym bits : Nat) : Huft :=
  if sym < s then ⟨if sym < 256 then 16 else 15, bits, sym⟩ else ⟨e.getD (sym - s) 0, bits, d.getD (sym - s) 0⟩

theorem symbolEntry_b (s : Nat) (d e : List Nat) (sym bits : Nat) : (symbolEntry s d e sym bits).b = bits := by
  rw [symbolEntry]
  split <;> rfl

variable {g l y : Nat}

theorem generator_cnt (hlens : ∀ x ∈ b, x ≤ bmax) (hg1 : 1 ≤ g) (hg2 : g ≤ bmax) (k : Nat) :
    (generator stray b s d e g l y).cnt k = lengthCount b k + if k = g then y else 0 := by
  have hlen := length_countLengths hlens
  by_cases hk : k = 0
  · subst hk
    rw [Build.cnt, if_pos rfl, lengthCount, if_pos rfl, if_neg (by omega)]
  · rw [Build.cnt_pos hk, lengthCount_eq hlens (by omega)]
    show ((countLengths b).set g _).getD k 0 = _
    by_cases hkg : k = g
    · subst hkg
      rw [List.getD_eq_getElem _ _ (by rw [List.length_set]; omega), List.getElem_set_self, if_pos rfl]
    · rw [List.getD_eq_getElem?_getD, List.getElem?_set_ne (fun h => hkg h.symm), ← List.getD_eq_getElem?_getD,
        if_neg hkg, Nat.add_zero]

theorem generator_upTo (hlens : ∀ x ∈ b, x ≤ bmax) (hg1 : 1 ≤ g) (hg2 : g ≤ bmax) {k : Nat} (hk : k < g) :
    (generator stray b s d e g l y).upTo k = mass (lengthCount b) g k := by
  apply mass_congr
  intro j _ hj
  rw [generator_cnt hlens hg1 hg2, if_neg (by omega), Nat.add_zero]

theorem generator_full (hlens : ∀ x ∈ b, x ≤ bmax) (hg1 : 1 ≤ g) (hg2 : g ≤ bmax) :
    (generator stray b s d e g l y).upTo g = mass (lengthCount b) g g + y := by
  obtain ⟨n, rfl⟩ : ∃ n, g = n + 1 := ⟨g - 1, by omega⟩
  have hbelow : (generator stray b s d e (n + 1) l y).upTo n = mass (lengthCount b) (n + 1) n :=
    generator_upTo hlens hg1 hg2 (Nat.lt_succ_self n)
  have hstep : (generator stray b s d e (n + 1) l y).upTo (n + 1) =
      (generator stray b s d e (n + 1) l y).upTo n +
        (generator stray b s d e (n + 1) l y).cnt (n + 1) * 2 ^ (n + 1 - (n + 1)) := rfl
  rw [hstep, hbelow, generator_cnt hlens hg1 hg2, if_pos rfl, mass, Nat.sub_self, Nat.pow_zero]
  ring

theorem generator_total (hlens : ∀ x ∈ b, x ≤ bmax) (hg1 : 1 ≤ g) (hg2 : g ≤ bmax) {k : Nat} (hk : k < g) :
    total (generator stray b s d e g l y).cnt k = total (lengthCount b) k := by
  induction k with
  | zero => rfl
  | succ k ih => rw [total, total, ih (by omega), generator_cnt hlens hg1 hg2, if_neg (by omega), Nat.add_zero]

theorem total_cons (x : Nat) (b : List Nat) (k : Nat) :
    total (lengthCount (x :: b)) k = total (lengthCount b) k + if x ≠ 0 ∧ x ≤ k then 1 else 0 := by
  induction k with
  | zero => rw [total, total, if_neg (by omega)]
  | succ k ih =>
      rw [total, total, ih, lengthCount, lengthCount, if_neg (Nat.succ_ne_zero k), if_neg (Nat.succ_ne_zero k),
        List.count_cons]
      by_cases hx : x = k + 1
      · have hbeq : (x == k + 1) = true := by simpa using hx
        rw [hbeq, if_pos rfl, if_neg (by omega), if_pos (by omega)]
        ring
      · have hbeq : (x == k + 1) = false := by simpa using hx
        have hiff : (x ≠ 0 ∧ x ≤ k) ↔ (x ≠ 0 ∧ x ≤ k + 1) := by omega
        rw [hbeq, if_congr hiff rfl rfl, if_neg Bool.false_ne_true]
        ring

/-- No more words than symbols. -/
theorem total_le_length (b : List Nat) (k : Nat) : total (lengthCount b) k ≤ b.length := by
  induction b with
  | nil =>
      have hzero : ∀ k, total (lengthCount []) k = 0 := by
        intro k
        induction k with
        | zero => rfl
        | succ k ih => rw [total, ih, lengthCount, if_neg (Nat.succ_ne_zero k), List.count_nil]
      rw [hzero]
      exact Nat.zero_le _
  | cons x b ih =>
      rw [total_cons, List.length_cons]
      split <;> omega

/-- The state in which the tables are made is in order. -/
theorem generator_sound (hlens : ∀ x ∈ b, x ≤ bmax) (hg1 : 1 ≤ g) (hg2 : g ≤ bmax) (hgb : g ∈ b) (hl1 : 1 ≤ l)
    (hl2 : l ≤ g) (hy : y + mass (lengthCount b) g g = 2 ^ g) (hroomy : g < 2 * l ∨ (y = 0 ∧ b.length < 2 ^ l)) :
    (generator stray b s d e g l y).Sound := by
  have hcnt : 1 ≤ lengthCount b g := by
    rw [lengthCount, if_neg (by omega)]
    exact List.count_pos_iff.mpr hgb
  have hlast : mass (lengthCount b) g g = mass (lengthCount b) g (g - 1) + lengthCount b g := by
    obtain ⟨n, rfl⟩ : ∃ n, g = n + 1 := ⟨g - 1, by omega⟩
    rw [mass, Nat.sub_self, Nat.pow_zero, Nat.mul_one, Nat.add_sub_cancel]
  constructor
  · exact hl1
  · exact hl2
  · show (generator stray b s d e g l y).upTo g = 2 ^ g
    rw [generator_full hlens hg1 hg2, Nat.add_comm, hy]
  · show (generator stray b s d e g l y).upTo (g - 1) < 2 ^ g
    rw [generator_upTo hlens hg1 hg2 (by omega)]
    omega
  · refine hroomy.imp_right ?_
    rintro ⟨hy0, hfew⟩
    refine lt_of_le_of_lt ?_ hfew
    have hsame : total (generator stray b s d e g l y).cnt g = total (lengthCount b) g := by
      obtain ⟨n, rfl⟩ : ∃ n, g = n + 1 := ⟨g - 1, by omega⟩
      rw [total, total, generator_total hlens hg1 hg2 (Nat.lt_succ_self n), generator_cnt hlens hg1 hg2, hy0, ite_self,
        Nat.add_zero]
    show total (generator stray b s d e g l y).cnt g ≤ b.length
    rw [hsame]
    exact total_le_length b g

variable (stray y) in
/-- The value the loop has for a symbol is the symbol. -/
theorem generator_value (hlens : ∀ x ∈ b, x ≤ bmax) (hn : b.length ≤ nMax) (hg1 : 1 ≤ g) (hg2 : g ≤ bmax)
    (hmax : ∀ x ∈ b, x ≤ g) {sym : Nat} (hsym : sym < b.length) (hused : b.getD sym 0 ≠ 0) :
    (valuesLoop b 0 (offsets ((countLengths b).set g ((countLengths b).getD g 0 + y)) g) stray.v).getD
      (total (lengthCount b) (b.getD sym 0 - 1) + (b.take sym).count (b.getD sym 0)) 0 = sym := by
  obtain ⟨f, hf⟩ : ∃ f, f = (generator stray b 0 [] [] g 0 y).cnt := ⟨_, rfl⟩
  have hcnt (k : Nat) : f k = lengthCount b k + if k = g then y else 0 := by
    rw [hf, generator_cnt hlens hg1 hg2]
  have htotal : ∀ k < g, total f k = total (lengthCount b) k := by
    intro k hk
    rw [hf, generator_total hlens hg1 hg2 hk]
  have hoffsets := offsetsLoop_spec (c := (countLengths b).set g ((countLengths b).getD g 0 + y)) (f := f)
    (fun k hk => by rw [hf, Build.cnt_pos (by omega)]; rfl) (g - 1) 1 0 (List.replicate (bmax + 1) 0) le_rfl
    (by rw [List.length_replicate]; omega) rfl (by
      intro i hi1 hi2
      rw [show i = 1 by omega]
      rfl)
  have hvalues := valuesLoop_spec (f := lengthCount b) (g := g) b []
    (offsets ((countLengths b).set g ((countLengths b).getD g 0 + y)) g) stray.v
    (fun k hk => by rw [lengthCount, if_neg (by omega), List.nil_append])
    (fun k hk => hmax k hk)
    (by rw [offsets, hoffsets.1, List.length_replicate]; omega)
    (by rw [stray.size]; exact (total_le_length b g).trans hn)
    (fun k hk1 hk2 => by
      rw [offsets, hoffsets.2 k hk1 (by omega), htotal (k - 1) (by omega), List.count_nil, Nat.add_zero])
    (fun s hs => absurd hs (Nat.not_lt_zero s))
  exact hvalues sym hsym hused

/-- Whenever tables are made, and unless they would have to be nested too deeply for their size, the walk reads the
    word of every symbol and comes to the entry of that symbol, whatever follows the word in the buffer. -/
theorem huftBuild_yields (hlens : ∀ x ∈ b, x ≤ bmax) (hn : b.length ≤ nMax)
    (hcode : (huftBuild stray b s d e m).code ≠ 2)
    (hroom : (∀ x ∈ b, x < 2 * m) ∨ ((huftBuild stray b s d e m).code = 0 ∧ b.length < 2 ^ m)) {sym : Nat}
    (hsym : sym < b.length) (hused : b.getD sym 0 ≠ 0) (hd : s ≤ sym → sym - s < e.length ∧ sym - s < d.length) :
    ∃ w bits, w + bits = b.getD sym 0 ∧ ∀ B, B % 2 ^ b.getD sym 0 = value (codeWord b sym) →
      Yields (huftBuild stray b s d e m).tables (huftBuild stray b s d e m).bits B (symbolEntry s d e sym bits) w := by
  have hmem : b.getD sym 0 ∈ b := by
    rw [List.getD_eq_getElem _ _ hsym]
    exact List.getElem_mem hsym
  obtain ⟨g, l, hg1, hg2, hgb, hmax, hl1, hl2, hlm, hcases⟩ :=
    huftBuild_cases stray s m d e hlens ⟨_, hmem, hused⟩
  rcases hcases with ⟨-, heq⟩ | ⟨y, j, hy, hj1, hjg, hempty, heq⟩
  · exact absurd (congrArg HuftResult.code heq) hcode
  · have hroomy : g < 2 * l ∨ (y = 0 ∧ b.length < 2 ^ l) := by
      rcases hlm with hml | hlg
      · rcases hroom with hshort | ⟨hzero, hfew⟩
        · have h := hshort g hgb
          exact Or.inl (by omega)
        · by_cases hg : g = 1
          · exact Or.inl (by omega)
          · refine Or.inr ⟨?_, hfew.trans_le (Nat.pow_le_pow_right (by decide) hml)⟩
            by_contra hy0
            rw [heq, if_pos ⟨hy0, hg⟩] at hzero
            exact absurd hzero Nat.one_ne_zero
      · exact Or.inl (by omega)
    have hsound : (generator stray b s d e g l y).Sound := generator_sound hlens hg1 hg2 hgb hl1 hl2 hy hroomy
    have hk1 : 1 ≤ b.getD sym 0 := Nat.one_le_iff_ne_zero.mpr hused
    have hkg : b.getD sym 0 ≤ g := hmax _ hmem
    have hrank : (b.take sym).count (b.getD sym 0) < lengthCount b (b.getD sym 0) := rank_lt hsym hused
    have hbelow : ∀ i < j, (generator stray b s d e g l y).cnt i = 0 := by
      intro i hi
      rw [generator_cnt hlens hg1 hg2, hempty i hi, if_neg (by omega)]
    obtain ⟨w, bits, hw, hbits, hyields⟩ := Build.generate_spec hsound hj1 hjg hbelow
      (b.getD sym 0) ((b.take sym).count (b.getD sym 0)) hk1 hkg (by
        rw [generator_cnt hlens hg1 hg2]
        exact Nat.lt_add_right _ hrank)
    -- the word lies where the code says
    have hword : reversed g (Build.wordAt (generator stray b s d e g l y) (b.getD sym 0)
        ((b.take sym).count (b.getD sym 0))) = value (codeWord b sym) := by
      have hfirst : mass (lengthCount b) g (b.getD sym 0 - 1) =
          firstCode (lengthCount b) (b.getD sym 0) * 2 ^ (g - b.getD sym 0) := by
        obtain ⟨k, hk⟩ : ∃ k, b.getD sym 0 = k + 1 := ⟨b.getD sym 0 - 1, by omega⟩
        have h0 : lengthCount b 0 = 0 := if_pos rfl
        rw [hk, Nat.add_sub_cancel, firstCode_mass h0 (by omega)]
      have hpos : 0 < 2 ^ (g - b.getD sym 0) := Nat.two_pow_pos _
      have hat : Build.wordAt (generator stray b s d e g l y) (b.getD sym 0)
          ((b.take sym).count (b.getD sym 0)) = code b sym * 2 ^ (g - b.getD sym 0) := by
        show (generator stray b s d e g l y).upTo (b.getD sym 0 - 1) + _ * 2 ^ (g - b.getD sym 0) = _
        rw [generator_upTo hlens hg1 hg2 (by omega), hfirst, ← Nat.add_mul]
        rfl
      rw [hat, reversed_aligned hkg (Dvd.intro_left _ rfl), Nat.mul_div_cancel _ hpos, value_codeWord]
    have hentry : Build.entry (generator stray b s d e g l y)
        (total (generator stray b s d e g l y).cnt (b.getD sym 0 - 1) + (b.take sym).count (b.getD sym 0)) bits =
          symbolEntry s d e sym bits := by
      have hvalue := generator_value stray y hlens hn hg1 hg2 hmax hsym hused
      have hplace : total (lengthCount b) (b.getD sym 0 - 1) + (b.take sym).count (b.getD sym 0) < b.length := by
        have hstep : total (lengthCount b) (b.getD sym 0) =
            total (lengthCount b) (b.getD sym 0 - 1) + lengthCount b (b.getD sym 0) := by
          obtain ⟨k, hk⟩ : ∃ k, b.getD sym 0 = k + 1 := ⟨b.getD sym 0 - 1, by omega⟩
          rw [hk]
          rfl
        have hall := total_le_length b (b.getD sym 0)
        omega
      rw [generator_total hlens hg1 hg2 (by omega)]
      simp only [Build.entry, generator, if_neg (Nat.not_le.mpr hplace), hvalue, symbolEntry]
      by_cases hsimple : sym < s
      · rw [if_pos hsimple, if_pos hsimple]
      · obtain ⟨he', hd'⟩ := hd (Nat.le_of_not_lt hsimple)
        rw [if_neg hsimple, if_neg hsimple, Build.lookUp, dif_pos ⟨he', hd'⟩, List.getD_eq_getElem _ _ he',
          List.getD_eq_getElem _ _ hd']
        rfl
    refine ⟨w, bits, hw, ?_⟩
    intro B hB
    rw [heq, ← hentry]
    exact hyields B (hB.trans hword.symm)

end whole

end Cromwell.Gzip
