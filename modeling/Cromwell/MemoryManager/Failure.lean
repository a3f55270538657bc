/-
Module: Cromwell.MemoryManager.Failure
Layer: Proofs
Purpose: What `malloc` does with a request that it cannot serve. It adds 0x100 to whatever `t_malloc` returns and writes
  a header in front of that address, so it never returns `NULL`, and a size that wraps is given one cluster.
Imports: Cromwell.MemoryManager.Safety
Trusted boundary: human-reviewed statement (Reserved, Serves, FailsCleanly, Servable)
Main exports: malloc_fails_cleanly_iff
-/
import Cromwell.MemoryManager.Safety

namespace Cromwell.MemoryManager

open ByteMemory

/-- The clusters from `c` on were free and are marked now; no other byte of the table page changed. -/
structure Reserved (h h' : Heap) (c k : Nat) : Prop where
  page : c + k ≤ 0x4000
  free : FreeRun h c k
  marked : ∀ i < k, h'.memsmall (c + i) ≠ 0
  others : ∀ i < 0x4000, ¬ (c ≤ i ∧ i < c + k) → h'.memsmall i = h.memsmall i

/-- The call returns a pointer with `size` bytes behind it inside the clusters that it reserved. -/
def Serves (h : Heap) (size : Nat) : Prop :=
  ∃ c k, Reserved h (malloc h size).2 c k ∧
    h.memoryManagerStartAddress + c * 0x4000 ≤ (malloc h size).1 ∧
    (malloc h size).1 + size ≤ h.memoryManagerStartAddress + (c + k) * 0x4000

/-- The call serves the request, or it returns `NULL` and changes nothing. -/
def FailsCleanly (h : Heap) (size : Nat) : Prop := Serves h size ∨ malloc h size = (0, h)

/-- The size does not wrap when it is rounded, it is in one of the three classes, and the table has a free run of its
    length. -/
def Servable (h : Heap) (size : Nat) : Prop :=
  size + 0x200 < 2 ^ 32 ∧ paddedSize size ≤ 0x500000 ∧
    ∃ c, 1 ≤ c ∧ c ≤ 0x3ff ∧ FreeRun h c (clusterCount (paddedSize size))

variable {h : Heap} {size : Nat}

/-- A pointer below the arena is neither `NULL` nor in a cluster. -/
theorem not_failsCleanly_of_low (start : h.memoryManagerStartAddress = memoryManagerStart)
    (hptr : (malloc h size).1 = 0x100) : ¬ FailsCleanly h size := by
  rintro (⟨c, k, -, hlow, -⟩ | hnull)
  · rw [hptr, start, memoryManagerStart] at hlow
    omega
  · rw [hnull] at hptr
    cases hptr

/-- A wrapped size is rounded to a block of the first class. -/
theorem paddedSize_of_wrap (hsize : size < 2 ^ 32) (hwrap : 2 ^ 32 ≤ size + 0x200) : paddedSize size ≤ 0x100 := by
  have hsmall : u32 (size + 0x200) < 0x200 := by
    rw [u32]
    omega
  have hmask : u32 (size + 0x200) &&& 0xffffff00 = u32 (size + 0x200) / 2 ^ 8 * 2 ^ 8 :=
    and_highMask (k := 8) (by omega) (by omega)
  rw [paddedSize, hmask]
  omega

/-- The claimed clusters are the ones that a call reserved. -/
theorem Reserved.subset {h' : Heap} {c k c' k' : Nat} (hreserved : Reserved h h' c k)
    (hothers : ∀ i < 0x4000, ¬ (c' ≤ i ∧ i < c' + k') → h'.memsmall i = h.memsmall i) {i : Nat} (hi : i < k) :
    c' ≤ c + i ∧ c + i < c' + k' := by
  by_contra hout
  have hsame := hothers (c + i) (Nat.lt_of_lt_of_le (Nat.add_lt_add_left hi c) hreserved.page) hout
  rw [hreserved.free i hi] at hsame
  exact hreserved.marked i hi hsame

/-- A call that finds a run reserves it. -/
theorem malloc_reserves (start : h.memoryManagerStartAddress = memoryManagerStart) {c k : Nat} (lo : 1 ≤ c)
    (hi : c ≤ 0x3ff) (hk : k ≤ 321) (hrun : FreeRun h c k) :
    Reserved h ((h.claim c k).writeHeader (memoryManagerStart + c * 0x4000)) c k where
  page := by omega
  free := hrun
  marked := by
    intro i hlt
    rw [writeHeader_claim_memsmall start lo hi (by omega), Heap.claim_memsmall, if_pos (by omega),
      Nat.add_sub_cancel_left]
    exact mark_ne_zero hlt
  others := by
    intro i hpage hout
    rw [writeHeader_claim_memsmall start lo hi hpage, Heap.claim_memsmall, if_neg hout]

/-- Every heap with the table in its place, as every reachable one has it, and every 32-bit size: `malloc` fails cleanly
    exactly when it does not fail. -/
theorem malloc_fails_cleanly_iff (start : h.memoryManagerStartAddress = memoryManagerStart) (hsize : size < 2 ^ 32) :
    FailsCleanly h size ↔ Servable h size := by
  rcases malloc_cases start size with ⟨-, hfail, hcall⟩ | ⟨c, hfits, hfit, -, hcall⟩
  · have hptr : (malloc h size).1 = 0x100 := by rw [hcall]
    refine iff_of_false (not_failsCleanly_of_low start hptr) fun ⟨_, hfits, c, lo, hi, hrun⟩ => ?_
    rcases hfail with hlarge | hnone
    · omega
    · exact firstFit_eq_none.mp hnone c lo hi hrun
  · obtain ⟨lo, hi, hrun, -⟩ := firstFit_eq_some.mp hfit
    have hk : clusterCount (paddedSize size) ≤ 321 := by
      have hcases := clusterCount_cases hfits
      omega
    have hreserves := malloc_reserves start lo hi hk hrun
    have hptr : (malloc h size).1 = memoryManagerStart + c * 0x4000 + 0x100 := by rw [hcall]
    constructor
    · rintro (⟨c', k', hreserved, hlow, hhigh⟩ | hnull)
      · refine ⟨?_, hfits, c, lo, hi, hrun⟩
        by_contra hwrap
        -- A wrapped size got the one cluster `c`, which cannot hold it.
        have hone : clusterCount (paddedSize size) = 1 := by
          have hsmall := paddedSize_of_wrap hsize (by omega)
          rw [clusterCount, if_pos (by omega)]
        rw [hcall] at hreserved
        rw [hone] at hreserved hreserves
        have hinside := fun {i} (hlt : i < k') => hreserved.subset hreserves.others hlt
        rw [hptr, start] at hlow hhigh
        rcases Nat.eq_zero_or_pos k' with hzero | hpos
        · omega
        · have hfirst := hinside hpos
          have hlast := hinside (show k' - 1 < k' by omega)
          omega
      · rw [hnull] at hptr
        rw [memoryManagerStart] at hptr
        cases hptr
    · rintro ⟨hwrap, -, -⟩
      refine Or.inl ⟨c, clusterCount (paddedSize size), ?_, ?_, ?_⟩
      · rw [hcall]
        exact hreserves
      · rw [hptr, start]
        exact Nat.le_add_right _ _
      · have hle := le_clusterCount hfits
        have hpadded := paddedSize_eq hwrap
        rw [hptr, start]
        omega

/-- Behind a block of each encoding, six more clusters are served. -/
theorem malloc_fails_cleanly_small : FailsCleanly threeClasses.heap 0x15000 :=
  (malloc_fails_cleanly_iff rfl (by decide)).mpr
    ⟨by decide, by decide, 12, by decide, by decide, by decide +kernel⟩

/-- Six megabytes on a fresh heap: the address 0x100 is returned. -/
theorem large_request_not_null :
    Reachable (State.initial fun _ => 0) ∧ (malloc (State.initial fun _ => 0).heap 0x600000).1 = 0x100 ∧
      ¬ FailsCleanly (State.initial fun _ => 0).heap 0x600000 := by
  have hptr : (malloc (State.initial fun _ => 0).heap 0x600000).1 = 0x100 := by
    rw [malloc, tMalloc_of_gt _ (by decide)]
    decide
  exact ⟨⟨_, Relation.ReflTransGen.refl⟩, hptr, not_failsCleanly_of_low rfl hptr⟩

end Cromwell.MemoryManager
