/-
Module: Cromwell.MemoryManager.Client
Layer: Model
Purpose: The heap as the readers of the file systems use it: the memory, and the blocks that they hold. A block that
  they take lies in the arena and has room for what was asked for. Where `malloc` has none of that kind the run is not
  followed: `malloc` does not return `NULL` then, and its callers go on with the address that they get.
Imports: Cromwell.MemoryManager.Safety
Trusted boundary: reviewed against src/lib/misc/BootLibrary.c and src/include/memory_layout.h
Main exports: ClientHeap, ClientHeap.malloc, ClientHeap.free, freeClusters, malloc_below, free_below
-/
import Cromwell.MemoryManager.Safety

namespace Cromwell.MemoryManager

open ByteMemory

/-- The end of the arena, `MEMORYMANAGEREND + 1`. -/
def memoryManagerEnd : Nat := 0x039FFFFF + 1

theorem malloc_start (h : Heap) (size : Nat) :
    (malloc h size).2.memoryManagerStartAddress = h.memoryManagerStartAddress := by
  have hblock : (tMalloc h (paddedSize size)).2.memoryManagerStartAddress = h.memoryManagerStartAddress := by
    rw [tMalloc]
    split_ifs
    · split <;> rfl
    · split <;> rfl
    · split <;> rfl
    · rfl
  exact hblock

/-- What `t_free` can do to the table. -/
inductive Freed (h : Heap) : Heap → Prop where
  | nothing : Freed h h
  | one (temp : Nat) : Freed h { h with mem := h.mem.store (h.entry temp) 0 }
  | four (temp : Nat) : Freed h { h with mem := h.mem.fill (h.entry temp) 4 0 }
  | scan (fuel temp : Nat) : Freed h { h with mem := freeScan h.memoryManagerStartAddress fuel temp h.mem }

theorem tFree_freed (h : Heap) (ptr : Nat) : Freed h (tFree h ptr) := by
  rw [tFree]
  dsimp only
  split
  · split
    · exact Freed.one _
    · split
      · exact Freed.four _
      · split
        · exact Freed.scan _ _
        · exact Freed.nothing
  · exact Freed.nothing

theorem free_freed (h : Heap) (ptr : Nat) : Freed h (free h ptr) := by
  rw [free]
  split
  · exact Freed.nothing
  · split
    · exact Freed.nothing
    · exact tFree_freed h _

theorem Freed.start {h h' : Heap} (freed : Freed h h') :
    h'.memoryManagerStartAddress = h.memoryManagerStartAddress := by
  cases freed <;> rfl

theorem free_start (h : Heap) (ptr : Nat) :
    (free h ptr).memoryManagerStartAddress = h.memoryManagerStartAddress := (free_freed h ptr).start

theorem State.malloc_live {s : State} {size : Nat} {b : Block} (h : mallocBlock s.heap size = some b) :
    (s.malloc size).live = b :: s.live := by
  rw [State.malloc, h]
  rfl

/-! ### The heap of a client -/

/-- The memory and the blocks that were handed out and not given back. The table lies where the loader has put it. -/
structure ClientHeap extends State where
  start : heap.memoryManagerStartAddress = memoryManagerStart

namespace ClientHeap

theorem start_malloc (h : ClientHeap) (size : Nat) :
    (h.toState.malloc size).heap.memoryManagerStartAddress = memoryManagerStart :=
  (malloc_start h.heap size).trans h.start

theorem start_free (h : ClientHeap) (block : Block) :
    (h.toState.free block).heap.memoryManagerStartAddress = memoryManagerStart :=
  (free_start h.heap block.ptr).trans h.start

/-- The heap after `malloc`. -/
def afterMalloc (h : ClientHeap) (size : Nat) : ClientHeap := ⟨h.toState.malloc size, h.start_malloc size⟩

/-- `malloc`, if it finds a block in the arena with so many bytes. A size that wraps is given a block that is too
    small. -/
def malloc (h : ClientHeap) (size : Nat) : Option (Block × ClientHeap) :=
  match mallocBlock h.heap size with
  | none => none
  | some block =>
      if size + 0x200 < 2 ^ 32 ∧ block.ptr + size ≤ memoryManagerEnd then
        some (block, h.afterMalloc size)
      else none

/-- `free`. -/
def free (h : ClientHeap) (block : Block) : ClientHeap := ⟨h.toState.free block, h.start_free block⟩

/-- The heap over another memory. -/
def withMem (h : ClientHeap) (mem : Mem) : ClientHeap := ⟨{ h.toState with heap := { h.heap with mem := mem } }, h.start⟩

@[simp] theorem withMem_live (h : ClientHeap) (mem : Mem) : (h.withMem mem).live = h.live := rfl

@[simp] theorem withMem_mem (h : ClientHeap) (mem : Mem) : (h.withMem mem).heap.mem = mem := rfl

/-- After `MemoryManagementInitialization`. -/
def initial (mem : Mem) : ClientHeap := ⟨State.initial mem, rfl⟩

variable {h h' : ClientHeap} {size : Nat} {block : Block}

theorem malloc_eq_some_iff :
    h.malloc size = some (block, h') ↔
      mallocBlock h.heap size = some block ∧ size + 0x200 < 2 ^ 32 ∧ block.ptr + size ≤ memoryManagerEnd ∧
        h' = h.afterMalloc size := by
  rw [malloc]
  cases hblock : mallocBlock h.heap size with
  | none => simp
  | some found =>
      simp only [Option.ite_none_right_eq_some, Option.some.injEq, Prod.mk.injEq]
      constructor
      · rintro ⟨⟨hwrap, hend⟩, rfl, rfl⟩
        exact ⟨rfl, hwrap, hend, rfl⟩
      · rintro ⟨rfl, hwrap, hend, rfl⟩
        exact ⟨⟨hwrap, hend⟩, rfl, rfl⟩

theorem malloc_block (hm : h.malloc size = some (block, h')) : mallocBlock h.heap size = some block :=
  (malloc_eq_some_iff.mp hm).1

theorem malloc_noWrap (hm : h.malloc size = some (block, h')) : size + 0x200 < 2 ^ 32 :=
  (malloc_eq_some_iff.mp hm).2.1

theorem malloc_toState (hm : h.malloc size = some (block, h')) : h'.toState = h.toState.malloc size := by
  rw [(malloc_eq_some_iff.mp hm).2.2.2]
  rfl

theorem malloc_live (hm : h.malloc size = some (block, h')) : h'.live = block :: h.live := by
  rw [malloc_toState hm]
  exact State.malloc_live (malloc_block hm)

theorem malloc_heap (hm : h.malloc size = some (block, h')) : h'.heap = (MemoryManager.malloc h.heap size).2 := by
  rw [malloc_toState hm]
  rfl

theorem length_le_free (h : ClientHeap) (block : Block) : h.live.length ≤ (h.free block).live.length + 1 :=
  Nat.le_succ_of_pred_le List.le_length_erase

/-- A block has its clusters in the table, from the first run on that is long enough. -/
theorem malloc_cluster (hm : h.malloc size = some (block, h')) :
    ∃ c, paddedSize size ≤ 0x500000 ∧ firstFit h.heap (clusterCount (paddedSize size)) = some c ∧
      block = ⟨memoryManagerStart + c * 0x4000 + 0x100, size, c, clusterCount (paddedSize size)⟩ ∧
      h'.heap = (h.heap.claim c (clusterCount (paddedSize size))).writeHeader (memoryManagerStart + c * 0x4000) := by
  have hblock := malloc_block hm
  rcases malloc_cases h.start size with ⟨hnone, -, -⟩ | ⟨c, hfits, hfit, hsome, hcall⟩
  · rw [hnone] at hblock
    cases hblock
  · rw [hsome] at hblock
    cases hblock
    exact ⟨c, hfits, hfit, rfl, by rw [malloc_heap hm, hcall]⟩

theorem malloc_size_le (hm : h.malloc size = some (block, h')) : size ≤ 0x500000 := by
  obtain ⟨c, hfits, -⟩ := malloc_cluster hm
  have hpadded := paddedSize_eq (malloc_noWrap hm)
  omega

/-- A block can be given back whole exactly when its length allows it. -/
theorem releasable_iff_whole (hm : h.malloc size = some (block, h')) :
    Releasable h.heap size ↔ releasedEnd block.cluster block.count = block.cluster + block.count := by
  obtain ⟨c, hfits, hfit, rfl, -⟩ := malloc_cluster hm
  exact releasable_iff hfits hfit

/-- A block of one cluster can be given back whole. -/
theorem whole_of_small (hm : h.malloc size = some (block, h')) (hsmall : clusterCount (paddedSize size) = 1) :
    releasedEnd block.cluster block.count = block.cluster + block.count := by
  rw [← releasable_iff_whole hm, Releasable, hsmall]
  exact ⟨by decide, Or.inl (by decide)⟩

/-- The clusters of the arena that are free. -/
def freeClusters (h : ClientHeap) : Finset Nat := (Finset.Icc 1 0x3ff).filter fun c => h.heap.memsmall c = 0

theorem mem_freeClusters {c : Nat} : c ∈ h.freeClusters ↔ (1 ≤ c ∧ c ≤ 0x3ff) ∧ h.heap.memsmall c = 0 := by
  rw [freeClusters, Finset.mem_filter, Finset.mem_Icc]

/-- A block takes a cluster that was free. -/
theorem freeClusters_malloc (hm : h.malloc size = some (block, h')) :
    h'.freeClusters.card < h.freeClusters.card := by
  obtain ⟨c, hfits, hfit, -, hheap⟩ := malloc_cluster hm
  obtain ⟨lo, hi, hrun, -⟩ := firstFit_eq_some.mp hfit
  have hcount : 0 < clusterCount (paddedSize size) := by
    have hcases := clusterCount_cases hfits
    omega
  have htable : ∀ i ≤ 0x3ff, h'.heap.memsmall i = (h.heap.claim c (clusterCount (paddedSize size))).memsmall i := by
    intro i hlast
    rw [hheap]
    exact writeHeader_claim_memsmall h.start lo hi (by omega)
  have hsub : h'.freeClusters ⊆ h.freeClusters := by
    refine Finset.subset_iff.mpr fun i hmem => ?_
    obtain ⟨hrange, hzero⟩ := mem_freeClusters.mp hmem
    rw [htable i hrange.2, Heap.claim_memsmall] at hzero
    split at hzero
    case isTrue hin => exact absurd hzero (mark_ne_zero (by omega))
    case isFalse => exact mem_freeClusters.mpr ⟨hrange, hzero⟩
  have hfree : c ∈ h.freeClusters := mem_freeClusters.mpr ⟨⟨lo, hi⟩, hrun 0 hcount⟩
  have htaken : c ∉ h'.freeClusters := by
    intro hmem
    have hzero := (mem_freeClusters.mp hmem).2
    rw [htable c hi, Heap.claim_memsmall, if_pos ⟨Nat.le_refl c, Nat.lt_add_of_pos_right hcount⟩] at hzero
    exact absurd hzero (mark_ne_zero (by omega))
  exact Finset.card_lt_card ((Finset.ssubset_iff_of_subset hsub).mpr ⟨c, hfree, htaken⟩)

end ClientHeap

/-! ### The memory below the arena -/

/-- The header of a call that finds no block. -/
theorem writeHeader_zero_mem (h : Heap) {x : Nat} (hx : ¬ (0xF8 ≤ x ∧ x < 0x100)) : (h.writeHeader 0).mem x = h.mem x := by
  have hzero : userPointer 0 = 0x100 := by decide
  apply Heap.writeHeader_of_not_mem
  · rw [hzero]
    exact hx
  · rw [hzero]
    omega

/-- A block and its header lie in the arena. -/
theorem writeHeader_claim_below {h : Heap} (start : h.memoryManagerStartAddress = memoryManagerStart) {c : Nat}
    (hc : c ≤ 0x3ff) (k : Nat) {x : Nat} (hx : x < memoryManagerStart) :
    ((h.claim c k).writeHeader (memoryManagerStart + c * 0x4000)).mem x = h.mem x := by
  have hptr := userPointer_cluster hc
  rw [Heap.writeHeader_of_not_mem (by rw [hptr]; omega) (by rw [hptr]; omega)]
  apply if_neg
  rw [Heap.entry, start]
  omega

/-- `malloc` changes nothing below the arena but the place of the header when it finds no block. -/
theorem malloc_below {h : Heap} (start : h.memoryManagerStartAddress = memoryManagerStart) (size : Nat) {x : Nat}
    (hx : x < memoryManagerStart) (hheader : ¬ (0xF8 ≤ x ∧ x < 0x100)) : (malloc h size).2.mem x = h.mem x := by
  rcases malloc_cases start size with ⟨-, -, hcall⟩ | ⟨c, -, hfit, -, hcall⟩
  · rw [hcall]
    exact writeHeader_zero_mem h hheader
  · rw [hcall]
    exact writeHeader_claim_below start (firstFit_eq_some.mp hfit).2.1 _ hx

/-- A block that a client is given changes nothing below the arena. -/
theorem ClientHeap.malloc_mem_below {h h' : ClientHeap} {size : Nat} {block : Block}
    (hm : h.malloc size = some (block, h')) {x : Nat} (hx : x < memoryManagerStart) : h'.heap.mem x = h.heap.mem x := by
  obtain ⟨c, -, hfit, -, hheap⟩ := malloc_cluster hm
  rw [hheap]
  exact writeHeader_claim_below h.start (firstFit_eq_some.mp hfit).2.1 _ hx

theorem freeScan_below {base x : Nat} (hx : x < base) (fuel counter : Nat) (mem : Mem) :
    freeScan base fuel counter mem x = mem x := by
  induction fuel generalizing counter mem with
  | zero => rfl
  | succ fuel ih =>
      rw [freeScan]
      split
      case isTrue => rw [Mem.store_of_ne (by omega), Mem.store_of_ne (by omega)]
      case isFalse => rw [ih, Mem.store_of_ne (by omega)]

/-- `free` changes nothing below the arena. -/
theorem free_below {h : Heap} (ptr : Nat) {x : Nat} (hx : x < h.memoryManagerStartAddress) :
    (free h ptr).mem x = h.mem x := by
  have hentry : ∀ temp, x < h.entry temp := fun temp => Nat.lt_add_right temp hx
  have hfreed := free_freed h ptr
  generalize free h ptr = h' at hfreed ⊢
  cases hfreed with
  | nothing => rfl
  | one temp => exact Mem.store_of_ne (Nat.ne_of_lt (hentry temp))
  | four temp => exact Mem.fill_of_not_mem fun hin => absurd hin.1 (Nat.not_le.mpr (hentry temp))
  | scan fuel temp => exact freeScan_below hx fuel temp h.mem

end Cromwell.MemoryManager
