/-
Module: Cromwell.MemoryManager.Table
Layer: Proofs
Purpose: What `t_malloc` and `t_free` do to the cluster table, one lemma each. The three size classes of
  `t_malloc` are one first-fit search that writes one of three marks (`tMalloc_eq`); `t_free` on a block
  that carries its mark clears all of it, a part of it or nothing, depending on its length and position
  (`tFree_marked`). Every invariant of a run is derived from these two.
Imports: Cromwell.MemoryManager.Allocator
Trusted boundary: none
Main exports: clusterCount, mark, FreeRun, firstFit, Heap.claim, Marked, releasedEnd, tMalloc_eq,
  tMalloc_first_fit, tFree_marked
-/
import Cromwell.MemoryManager.Allocator

namespace Cromwell.MemoryManager

open ByteMemory

/-! ### Size classes and their marks -/

/-- The number of clusters a request takes. -/
def clusterCount (size : Nat) : Nat :=
  if size < 0x4000 + 1 then 1 else if size < 0x10000 + 1 then 4 else needsectory size

/-- The table byte at offset `i` of a block of `k` clusters. -/
def mark (k i : Nat) : UInt8 :=
  if k = 1 then 0xAA
  else if k = 4 then Mem.wordByte 0xB8BADCFE i
  else if i = 0 ∨ i = k - 1 then 0xBB
  else if i = 1 ∨ i = k - 2 then 0xCC
  else 0xFF

theorem needsectory_eq {size : Nat} (h : size < 2 ^ 32) : needsectory size = size / 0x4000 + 1 := by
  have hmask : size &&& 0xffffc000 = size / 2 ^ 14 * 2 ^ 14 := and_highMask (k := 14) h (by omega)
  rw [needsectory, hmask]
  omega

theorem needsectory_ge_five {size : Nat} (lo : 0x10000 < size) (hi : size ≤ 0x500000) :
    5 ≤ needsectory size ∧ needsectory size ≤ 321 := by
  rw [needsectory_eq (by omega)]
  omega

/-- A request is no larger than the clusters it takes. -/
theorem le_clusterCount {size : Nat} (h : size ≤ 0x500000) : size ≤ clusterCount size * 0x4000 := by
  unfold clusterCount
  split_ifs
  · omega
  · omega
  · rw [needsectory_eq (by omega)]
    omega

theorem clusterCount_cases {size : Nat} (h : size ≤ 0x500000) :
    clusterCount size = 1 ∨ clusterCount size = 4 ∨
      (5 ≤ clusterCount size ∧ clusterCount size ≤ 321) := by
  unfold clusterCount
  split_ifs with h1 h2
  · exact Or.inl rfl
  · exact Or.inr (Or.inl rfl)
  · exact Or.inr (Or.inr (needsectory_ge_five (by omega) h))

theorem mark_ne_zero {k i : Nat} (hi : i < k) : mark k i ≠ 0 := by
  unfold mark
  split_ifs with h1 h4
  · decide
  · subst h4
    interval_cases i <;> decide
  · decide
  · decide
  · decide

theorem mark_eq_CC {k i : Nat} (hk : 5 ≤ k) (h : mark k i = 0xCC) : i = 1 ∨ i = k - 2 := by
  rw [mark, if_neg (by omega), if_neg (by omega)] at h
  split_ifs at h with h1 h2
  · exact absurd h (by decide)
  · exact h2
  · exact absurd h (by decide)

theorem mark_eq_BB {k i : Nat} (hk : 5 ≤ k) (h : mark k i = 0xBB) : i = 0 ∨ i = k - 1 := by
  rw [mark, if_neg (by omega), if_neg (by omega)] at h
  split_ifs at h with h1 h2
  · exact h1
  · exact absurd h (by decide)
  · exact absurd h (by decide)

/-! ### First fit -/

/-- The table bytes `c .. c+k-1` are all free. -/
def FreeRun (h : Heap) (c k : Nat) : Prop := ∀ i < k, h.memsmall (c + i) = 0

instance (h : Heap) (c k : Nat) : Decidable (FreeRun h c k) :=
  inferInstanceAs (Decidable (∀ i < k, h.memsmall (c + i) = 0))

/-- The first cluster in `1..0x3ff` from which `k` table bytes are free. -/
def firstFit (h : Heap) (k : Nat) : Option Nat :=
  counters.find? fun c => decide (FreeRun h c k)

theorem firstFit_eq_some {h : Heap} {k c : Nat} :
    firstFit h k = some c ↔
      1 ≤ c ∧ c ≤ 0x3ff ∧ FreeRun h c k ∧ ∀ c', 1 ≤ c' → c' < c → ¬ FreeRun h c' k := by
  rw [firstFit, counters, List.find?_range'_eq_some]
  simp only [decide_eq_true_eq, List.mem_range'_1, Bool.not_eq_true', decide_eq_false_iff_not]
  constructor
  · rintro ⟨hrun, hmem, hleast⟩
    exact ⟨hmem.1, by omega, hrun, hleast⟩
  · rintro ⟨lo, hi, hrun, hleast⟩
    exact ⟨hrun, ⟨lo, by omega⟩, hleast⟩

theorem firstFit_eq_none {h : Heap} {k : Nat} :
    firstFit h k = none ↔ ∀ c, 1 ≤ c → c ≤ 0x3ff → ¬ FreeRun h c k := by
  rw [firstFit, counters, List.find?_eq_none]
  simp only [List.mem_range'_1, decide_eq_true_eq]
  constructor
  · intro hnone c lo hi
    exact hnone c ⟨lo, by omega⟩
  · intro hnone c hmem
    exact hnone c hmem.1 (by omega)

/-- Write the mark of a block of `k` clusters at cluster `c`. -/
def Heap.claim (h : Heap) (c k : Nat) : Heap :=
  { h with mem := fun a => if h.entry c ≤ a ∧ a < h.entry c + k then mark k (a - h.entry c) else h.mem a }

@[simp] theorem Heap.claim_start (h : Heap) (c k : Nat) :
    (h.claim c k).memoryManagerStartAddress = h.memoryManagerStartAddress := rfl

theorem Heap.claim_memsmall (h : Heap) (c k i : Nat) :
    (h.claim c k).memsmall i = if c ≤ i ∧ i < c + k then mark k (i - c) else h.memsmall i := by
  have hrange : (h.entry c ≤ h.entry i ∧ h.entry i < h.entry c + k) ↔ (c ≤ i ∧ i < c + k) := by
    simp only [entry]
    omega
  have hoffset : h.entry i - h.entry c = i - c := by
    simp only [entry]
    omega
  change (if h.entry c ≤ h.entry i ∧ h.entry i < h.entry c + k
    then mark k (h.entry i - h.entry c) else h.mem (h.entry i)) = _
  simp only [hrange, hoffset, memsmall]

/-- `t_malloc` is first fit over the number of clusters of the size class, and writes that class's mark. -/
theorem tMalloc_eq (h : Heap) {size : Nat} (hs : size ≤ 0x500000) :
    tMalloc h size =
      match firstFit h (clusterCount size) with
      | some c => (h.clusterAddress c, h.claim c (clusterCount size))
      | none => (0, h) := by
  unfold tMalloc clusterCount
  split_ifs with h1 h2 h3
  · have hp : (fun counter => h.memsmall counter == 0) = fun c => decide (FreeRun h c 1) := by
      funext c
      rw [Bool.eq_iff_iff, beq_iff_eq, decide_eq_true_eq]
      simp [FreeRun]
    rw [hp, ← firstFit]
    cases hfit : firstFit h 1 with
    | none => rfl
    | some c =>
        simp only
        congr 2
        funext a
        simp only [Mem.store]
        by_cases ha : a = h.entry c
        · rw [if_pos ha, if_pos (by omega)]
          rfl
        · rw [if_neg ha, if_neg (by omega)]
  · have hp : (fun counter => h.mem.loadWord (h.entry counter) == 0) =
        fun c => decide (FreeRun h c 4) := by
      funext c
      rw [Bool.eq_iff_iff, beq_iff_eq, Mem.loadWord_eq_iff (by omega), decide_eq_true_eq]
      have hzero : ∀ i, Mem.wordByte 0 i = 0 := by intro i; simp [Mem.wordByte]
      simp only [hzero, FreeRun, Heap.memsmall, Heap.entry, Nat.add_assoc]
    rw [hp, ← firstFit]
    cases hfit : firstFit h 4 with
    | none => rfl
    | some c =>
        simp only
        congr 2
  · have hp : (fun counter => (List.range (needsectory size)).all
        fun blockcount => h.memsmall (counter + blockcount) == 0) =
        fun c => decide (FreeRun h c (needsectory size)) := by
      funext c
      rw [Bool.eq_iff_iff, List.all_eq_true, decide_eq_true_eq]
      simp [FreeRun]
    rw [hp, ← firstFit]
    cases hfit : firstFit h (needsectory size) with
    | none => rfl
    | some c =>
        simp only
        congr 2
        obtain ⟨h5, -⟩ := needsectory_ge_five (by omega) hs
        have e1 : h.entry (c + 1) = h.entry c + 1 := by simp only [Heap.entry]; omega
        have e2 : h.entry (c + needsectory size - 2) = h.entry c + needsectory size - 2 := by
          simp only [Heap.entry]; omega
        have e3 : h.entry (c + needsectory size - 1) = h.entry c + needsectory size - 1 := by
          simp only [Heap.entry]; omega
        rw [e1, e2, e3]
        funext a
        generalize h.entry c = e
        simp only [Mem.store, Mem.fill, mark, if_neg (show needsectory size ≠ 1 by omega),
          if_neg (show needsectory size ≠ 4 by omega)]
        -- the five writes decide the byte by its distance from either end of the block
        split_ifs <;> first | rfl | omega
  · omega

theorem tMalloc_of_gt (h : Heap) {size : Nat} (hs : 0x500000 < size) : tMalloc h size = (0, h) := by
  unfold tMalloc
  rw [if_neg (by omega), if_neg (by omega), if_neg (by omega)]

/-- The number of clusters of a size class: 1 up to 16K, 4 up to 64K, and above that always one more than are full. -/
def classClusters (size : Nat) : Nat :=
  if size ≤ 0x4000 then 1 else if size ≤ 0x10000 then 4 else size / 0x4000 + 1

theorem clusterCount_eq {size : Nat} (h : size ≤ 0x500000) : clusterCount size = classClusters size := by
  rw [clusterCount, classClusters]
  simp only [Nat.lt_succ_iff]
  rw [needsectory_eq (by omega)]

theorem classClusters_pos (size : Nat) : 0 < classClusters size := by
  rw [classClusters]
  split_ifs
  · exact Nat.one_pos
  · exact Nat.succ_pos 3
  · exact Nat.succ_pos _

/-- A block that is claimed is not free any more. -/
theorem Heap.claim_ne {h : Heap} {c k : Nat} (hk : 0 < k) (hfree : FreeRun h c k) : h.claim c k ≠ h := by
  intro heq
  have hmark : (h.claim c k).memsmall c = mark k 0 := by
    rw [Heap.claim_memsmall, if_pos ⟨Nat.le_refl c, Nat.lt_add_of_pos_right hk⟩, Nat.sub_self]
  have hzero : h.memsmall c = 0 := hfree 0 hk
  rw [heq, hzero] at hmark
  exact mark_ne_zero hk hmark.symm

/-- For every table and every size up to 5 MB: `t_malloc` returns 0 and changes nothing exactly when no cluster starts a
    free block of the length of the class; the first cluster that does is returned, exactly the table bytes of the block
    become nonzero, and no other byte changes. -/
theorem tMalloc_first_fit (h : Heap) {size : Nat} (hs : size ≤ 5 * 1024 * 1024) :
    (tMalloc h size = (0, h) ↔ ∀ c, 1 ≤ c → c ≤ 0x3ff → ¬ FreeRun h c (classClusters size)) ∧
    ∀ c, 1 ≤ c → c ≤ 0x3ff → FreeRun h c (classClusters size) →
      (∀ c', 1 ≤ c' → c' < c → ¬ FreeRun h c' (classClusters size)) →
      (tMalloc h size).1 = h.clusterAddress c ∧
      (∀ i < classClusters size, (tMalloc h size).2.memsmall (c + i) ≠ 0) ∧
      (tMalloc h size).2.memoryManagerStartAddress = h.memoryManagerStartAddress ∧
      ∀ a, ¬ (h.entry c ≤ a ∧ a < h.entry c + classClusters size) → (tMalloc h size).2.mem a = h.mem a := by
  have hpos := classClusters_pos size
  rw [tMalloc_eq h hs, clusterCount_eq hs]
  refine ⟨?_, fun c lo hi hfree hleast => ?_⟩
  · rw [← firstFit_eq_none]
    cases hfit : firstFit h (classClusters size) with
    | none =>
        exact iff_of_true rfl rfl
    | some c =>
        obtain ⟨-, -, hfree, -⟩ := firstFit_eq_some.mp hfit
        apply iff_of_false _ (Option.some_ne_none c)
        intro heq
        exact Heap.claim_ne hpos hfree (congrArg Prod.snd heq)
  · rw [firstFit_eq_some.mpr ⟨lo, hi, hfree, hleast⟩]
    refine ⟨rfl, fun i hi' => ?_, rfl, fun a ha => if_neg ha⟩
    rw [Heap.claim_memsmall, if_pos ⟨Nat.le_add_right c i, Nat.add_lt_add_left hi' c⟩, Nat.add_sub_cancel_left]
    exact mark_ne_zero hi'

/-- One byte more than 64K of an empty table: five clusters, from the first one on. -/
theorem tMalloc_first_fit_five :
    (tMalloc (memoryManagementInitialization (fun _ => 0) memoryManagerStart memoryManagerSize) 0x10001).1 =
      memoryManagerStart + 0x4000 := by
  obtain ⟨haddress, -⟩ := (@tMalloc_first_fit
    (memoryManagementInitialization (fun _ => 0) memoryManagerStart memoryManagerSize) 0x10001
      (by decide)).2 1 (by decide) (by decide) (by decide +kernel) (fun c' lo hlt => absurd lo (Nat.not_le.mpr hlt))
  exact haddress

/-! ### Release -/

/-- The block of `k` clusters at `c` carries its mark. -/
def Marked (h : Heap) (c k : Nat) : Prop := ∀ i < k, h.memsmall (c + i) = mark k i

/-- The first cluster of a block that `t_free` leaves as it is. A block of five clusters is not
    recognised, because its head `BB CC FF` runs into its tail `CC BB`; the scan over longer blocks
    stops at table entry `0x400`, where the tail of a block may not have been seen yet. -/
def releasedEnd (c k : Nat) : Nat :=
  if k = 5 then c else if k ≤ 4 ∨ c + k ≤ 0x401 then c + k else 0x400

/-- Clear the table bytes from `c` up to `e`. -/
def Heap.release (h : Heap) (c e : Nat) : Heap :=
  { h with mem := h.mem.fill (h.entry c) (e - c) 0 }

@[simp] theorem Heap.release_start (h : Heap) (c e : Nat) :
    (h.release c e).memoryManagerStartAddress = h.memoryManagerStartAddress := rfl

theorem Heap.release_memsmall (h : Heap) (c e i : Nat) :
    (h.release c e).memsmall i = if c ≤ i ∧ i < e then 0 else h.memsmall i := by
  have hrange : (h.entry c ≤ h.entry i ∧ h.entry i < h.entry c + (e - c)) ↔ (c ≤ i ∧ i < e) := by
    simp only [entry]
    omega
  change (if h.entry c ≤ h.entry i ∧ h.entry i < h.entry c + (e - c) then 0 else h.mem (h.entry i)) = _
  simp only [hrange, memsmall]

theorem fill_store (m : Mem) (a n : Nat) (v : UInt8) :
    (m.store a v).fill (a + 1) n v = m.fill a (n + 1) v := by
  funext x
  simp only [Mem.store, Mem.fill]
  split_ifs <;> first | rfl | omega

/-- The scan, started inside a long block before its tail, clears up to the end of the block or up to
    entry `0x400`, whichever the scan meets first. -/
theorem freeScan_marked (base : Nat) {c k : Nat} (hk : 6 ≤ k) :
    ∀ (fuel j : Nat) (mem : Mem), j ≤ k - 2 → fuel = 0x400 - (c + j) →
      (∀ i, j ≤ i → i < k → mem (base + (c + i)) = mark k i) →
      freeScan base fuel (c + j) mem =
        mem.fill (base + (c + j)) ((if c + k ≤ 0x401 then c + k else 0x400) - (c + j)) 0 := by
  intro fuel
  induction fuel with
  | zero =>
      intro j mem hj hfuel _
      rw [if_neg (by omega), ← hfuel]
      funext x
      rw [Mem.fill_of_not_mem (by omega)]
      rfl
  | succ fuel ih =>
      intro j mem hj hfuel hmark
      unfold freeScan
      by_cases htail : j = k - 2
      · -- the tail `CC BB` is in front of the scan
        have hcc : mem (base + (c + j)) = 0xCC := by
          rw [hmark j (le_refl j) (by omega), mark, if_neg (by omega), if_neg (by omega),
            if_neg (by omega), if_pos (by omega)]
        have hbb : mem (base + (c + j + 1)) = 0xBB := by
          rw [show c + j + 1 = c + (j + 1) by omega, hmark (j + 1) (by omega) (by omega), mark,
            if_neg (by omega), if_neg (by omega), if_pos (by omega)]
        rw [if_pos ⟨hcc, hbb⟩, if_pos (by omega), show c + k - (c + j) = 2 by omega]
        funext x
        simp only [Mem.store, Mem.fill]
        split_ifs <;> first | rfl | omega
      · have hnot : ¬ (mem (base + (c + j)) = 0xCC ∧ mem (base + (c + j + 1)) = 0xBB) := by
          rintro ⟨hcc, hbb⟩
          rw [hmark j (le_refl j) (by omega)] at hcc
          rw [show c + j + 1 = c + (j + 1) by omega, hmark (j + 1) (by omega) (by omega)] at hbb
          -- `CC` before the tail is the second head byte, and the byte after it is not `BB`
          have hj1 := mark_eq_CC (by omega) hcc
          have hj2 := mark_eq_BB (by omega) hbb
          omega
        rw [if_neg hnot, show c + j + 1 = c + (j + 1) by omega,
          ih (j + 1) (mem.store (base + (c + j)) 0) (by omega) (by omega)
            (fun i lo hi => by rw [Mem.store_of_ne (by omega)]; exact hmark i (by omega) hi),
          show base + (c + (j + 1)) = base + (c + j) + 1 by omega, fill_store]
        congr 1
        split_ifs <;> omega

/-- `t_free` on the address of a marked block clears its table bytes up to `releasedEnd`. -/
theorem tFree_marked {h : Heap} {c k : Nat} (hmark : Marked h c k)
    (hwrap : h.memoryManagerStartAddress + c * 0x4000 < 2 ^ 32) (hc : c ≤ 0x3ff)
    (hk : k = 1 ∨ k = 4 ∨ 5 ≤ k) :
    tFree h (h.clusterAddress c) = h.release c (releasedEnd c k) := by
  have htemp : u32 (h.clusterAddress c + 2 ^ 32 - h.memoryManagerStartAddress) = c * 0x4000 := by
    rw [Heap.clusterAddress, u32_of_lt hwrap, u32]
    omega
  have hmask : c * 0x4000 &&& 0xffffc000 = c * 0x4000 := by
    have hland : c * 0x4000 &&& 0xffffc000 = c * 0x4000 / 2 ^ 14 * 2 ^ 14 :=
      and_highMask (k := 14) (by omega) (by omega)
    rw [hland]
    exact Nat.div_mul_cancel (Dvd.intro_left c rfl)
  have hdiv : c * 0x4000 / 0x4000 = c := by omega
  have hbyte : ∀ i < k, h.mem (h.entry c + i) = mark k i := by
    intro i hi
    have := hmark i hi
    rwa [Heap.memsmall, Heap.entry, ← Nat.add_assoc] at this
  unfold tFree
  simp only [htemp, hmask, if_true, hdiv]
  rcases hk with rfl | rfl | hk
  · have haa : h.memsmall c = 0xAA := hmark 0 (by omega)
    rw [if_pos haa, Heap.release, releasedEnd, if_neg (by omega), if_pos (by omega),
      show c + 1 - c = 1 by omega]
    congr 1
    funext x
    simp only [Mem.store, Mem.fill]
    split_ifs <;> first | rfl | omega
  · have hfe : h.memsmall c ≠ 0xAA := by
      rw [show h.memsmall c = mark 4 0 from hmark 0 (by omega)]
      decide
    have hword : h.mem.loadWord (h.entry c) = 0xB8BADCFE :=
      (Mem.loadWord_eq_iff (by omega)).mpr hbyte
    rw [if_neg hfe, if_pos hword, Heap.release, releasedEnd, if_neg (by omega), if_pos (by omega),
      show c + 4 - c = 4 by omega]
  · have hbb : h.mem (h.entry c) = 0xBB := by
      have := hbyte 0 (by omega)
      rwa [mark, if_neg (by omega), if_neg (by omega), if_pos (by omega)] at this
    have hsmall : h.memsmall c ≠ 0xAA := by
      rw [Heap.memsmall, hbb]
      decide
    have hmid : h.mem.loadWord (h.entry c) ≠ 0xB8BADCFE := by
      intro hword
      have := (Mem.loadWord_eq_iff (by omega)).mp hword 0 (by omega)
      rw [Nat.add_zero, hbb] at this
      exact absurd this (by decide)
    rw [if_neg hsmall, if_neg hmid]
    by_cases h5 : k = 5
    · -- `BB CC FF CC BB`: the fourth byte is not the `FF` the comparison wants
      subst h5
      have hlong : h.mem.loadWord (h.entry c) ≠ 0xFFFFCCBB := by
        intro hword
        have := (Mem.loadWord_eq_iff (by omega)).mp hword 3 (by omega)
        rw [hbyte 3 (by omega)] at this
        exact absurd this (by decide)
      rw [if_neg hlong, releasedEnd, if_pos rfl, Heap.release, Nat.sub_self]
      have hnone : h.mem.fill (h.entry c) 0 0 = h.mem := by
        funext x
        exact Mem.fill_of_not_mem (by omega)
      rw [hnone]
    · have hlong : h.mem.loadWord (h.entry c) = 0xFFFFCCBB := by
        refine (Mem.loadWord_eq_iff (by omega)).mpr fun i hi => ?_
        rw [hbyte i (by omega), mark, if_neg (by omega), if_neg (by omega)]
        interval_cases i
        · rw [if_pos (by omega)]; decide
        · rw [if_neg (by omega), if_pos (by omega)]; decide
        · rw [if_neg (by omega), if_neg (by omega)]; decide
        · rw [if_neg (by omega), if_neg (by omega)]; decide
      have hscan := freeScan_marked h.memoryManagerStartAddress (c := c) (k := k)
        (by omega) (0x400 - c) 0 h.mem (by omega) (by omega) (fun i _ hi => hmark i hi)
      rw [Nat.add_zero] at hscan
      rw [if_pos hlong, hscan, Heap.release, releasedEnd, if_neg h5, Heap.entry]
      congr 2
      split_ifs <;> omega

end Cromwell.MemoryManager
