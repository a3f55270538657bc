/-
Module: Cromwell.MemoryManager.Run
Layer: Semantics
Purpose: Runs of a program over the heap. A state is the heap with the list of live blocks; a step is a
  `malloc`, a `free` of a live block, or a store of the client into a block it holds. `HeapInv` is the
  invariant of these runs: live blocks carry their marks and their headers and lie apart.
Imports: Cromwell.MemoryManager.Table
Trusted boundary: none
Main exports: Block, State, Step, Reachable, BlockOk, HeapInv, reachable_inv
-/
import Cromwell.MemoryManager.Table

namespace Cromwell.MemoryManager

open ByteMemory

/-- A block handed out by `malloc`: the pointer and the size the client knows, and the clusters
    `t_malloc` reserved. -/
structure Block where
  ptr : Nat
  size : Nat
  cluster : Nat
  count : Nat
deriving DecidableEq

/-- The clusters of a block. -/
def Block.clusters (b : Block) : Finset Nat := Finset.Ico b.cluster (b.cluster + b.count)

theorem Block.mem_clusters {b : Block} {c : Nat} :
    c ∈ b.clusters ↔ b.cluster ≤ c ∧ c < b.cluster + b.count := Finset.mem_Ico

/-- Two blocks share no cluster. -/
def Block.Apart (a b : Block) : Prop := Disjoint a.clusters b.clusters

instance : Std.Symm Block.Apart := ⟨fun _ _ h => Disjoint.symm h⟩

/-- The block a call of `malloc` hands out, if its `t_malloc` succeeds. -/
def mallocBlock (h : Heap) (size : Nat) : Option Block :=
  let block := (tMalloc h (paddedSize size)).1
  if block = 0 then none
  else
    some
      { ptr := (malloc h size).1
        size := size
        cluster := (block - h.memoryManagerStartAddress) / 0x4000
        count := clusterCount (paddedSize size) }

/-- The heap and the blocks that were handed out and not freed since. -/
structure State where
  heap : Heap
  live : List Block

/-- After `MemoryManagementInitialization((void *)MEMORYMANAGERSTART, MEMORYMANAGERSIZE)`, over any
    memory contents. -/
def State.initial (mem : Mem) : State :=
  { heap := memoryManagementInitialization mem memoryManagerStart memoryManagerSize
    live := [] }

/-- `malloc(size)`. -/
def State.malloc (s : State) (size : Nat) : State :=
  { heap := (MemoryManager.malloc s.heap size).2
    live := (mallocBlock s.heap size).toList ++ s.live }

/-- `free(p)` for the pointer of a block. -/
def State.free (s : State) (b : Block) : State :=
  { heap := MemoryManager.free s.heap b.ptr
    live := s.live.erase b }

/-- One step of a client that frees only live pointers and writes only into blocks it holds. -/
inductive Step : State → State → Prop where
  | malloc (s : State) (size : Nat) (noWrap : size + 0x200 < 2 ^ 32) : Step s (s.malloc size)
  | free (s : State) (b : Block) (live : b ∈ s.live) : Step s (s.free b)
  | store (s : State) (b : Block) (live : b ∈ s.live) (a : Nat) (v : UInt8)
      (inside : b.ptr ≤ a ∧ a < b.ptr + b.size) :
      Step s { s with heap := { s.heap with mem := s.heap.mem.store a v } }

/-- States reached from the initialised heap. -/
def Reachable (s : State) : Prop :=
  ∃ mem, Relation.ReflTransGen Step (State.initial mem) s

/-! ### Rounding -/

theorem paddedSize_eq {size : Nat} (h : size + 0x200 < 2 ^ 32) :
    paddedSize size = (size + 0x200) / 0x100 * 0x100 := by
  rw [paddedSize, u32_of_lt h]
  exact and_highMask (k := 8) h (by omega)

theorem userPointer_eq {block : Nat} (h : block + 0x100 < 2 ^ 32) (aligned : block % 0x100 = 0) :
    userPointer block = block + 0x100 := by
  have hmask : (block + 0x100) &&& 0xffffff00 = (block + 0x100) / 2 ^ 8 * 2 ^ 8 :=
    and_highMask (k := 8) h (by omega)
  rw [userPointer, u32_of_lt h, hmask]
  omega

/-- Clusters that the search can reach have addresses without wrap. -/
theorem clusterAddress_eq {h : Heap} {c : Nat} (start : h.memoryManagerStartAddress = memoryManagerStart)
    (hc : c ≤ 0x3ff) : h.clusterAddress c = memoryManagerStart + c * 0x4000 := by
  rw [Heap.clusterAddress, start, u32_of_lt]
  rw [memoryManagerStart]
  omega

/-- The pointer made of the address of a cluster that the search can reach. -/
theorem userPointer_cluster {c : Nat} (hc : c ≤ 0x3ff) :
    userPointer (memoryManagerStart + c * 0x4000) = memoryManagerStart + c * 0x4000 + 0x100 :=
  userPointer_eq (by simp only [memoryManagerStart]; omega) (by simp only [memoryManagerStart]; omega)

/-! ### The invariant -/

/-- A live block is marked in the table and its header is in place. -/
structure BlockOk (h : Heap) (b : Block) : Prop where
  first : 1 ≤ b.cluster
  last : b.cluster ≤ 0x3ff
  noWrap : b.size + 0x200 < 2 ^ 32
  fits : paddedSize b.size ≤ 0x500000
  count : b.count = clusterCount (paddedSize b.size)
  ptr : b.ptr = memoryManagerStart + b.cluster * 0x4000 + 0x100
  marked : Marked h b.cluster b.count
  header : h.mem.loadWord (b.ptr - 8) = memoryManagerStart + b.cluster * 0x4000
  magic : h.mem.loadWord (b.ptr - 4) = 0x1234567

/-- The invariant of every run. -/
structure HeapInv (s : State) : Prop where
  start : s.heap.memoryManagerStartAddress = memoryManagerStart
  table : s.heap.memsmall 0 ≠ 0
  apart : s.live.Pairwise Block.Apart
  block : ∀ b ∈ s.live, BlockOk s.heap b

theorem BlockOk.count_cases {h : Heap} {b : Block} (ok : BlockOk h b) :
    b.count = 1 ∨ b.count = 4 ∨ (5 ≤ b.count ∧ b.count ≤ 321) := by
  rw [ok.count]
  exact clusterCount_cases ok.fits

theorem BlockOk.count_pos {h : Heap} {b : Block} (ok : BlockOk h b) : 0 < b.count := by
  have := ok.count_cases
  omega

theorem BlockOk.mem_cluster {h : Heap} {b : Block} (ok : BlockOk h b) : b.cluster ∈ b.clusters := by
  have := ok.count_pos
  exact Block.mem_clusters.mpr ⟨le_refl _, by omega⟩

/-- The user bytes end inside the reserved clusters. -/
theorem BlockOk.user_le {h : Heap} {b : Block} (ok : BlockOk h b) :
    b.ptr + b.size ≤ memoryManagerStart + (b.cluster + b.count) * 0x4000 := by
  have hpad := paddedSize_eq ok.noWrap
  have hle := le_clusterCount ok.fits
  rw [← ok.count, hpad] at hle
  rw [ok.ptr]
  omega

theorem BlockOk.memsmall_ne_zero {h : Heap} {b : Block} (ok : BlockOk h b) {c : Nat}
    (hc : c ∈ b.clusters) : h.memsmall c ≠ 0 := by
  obtain ⟨lo, hi⟩ := Block.mem_clusters.mp hc
  have hmark := ok.marked (c - b.cluster) (by omega)
  rw [show b.cluster + (c - b.cluster) = c by omega] at hmark
  rw [hmark]
  exact mark_ne_zero (by omega)

/-- A block stays in order when its table bytes and its header keep their values. -/
theorem BlockOk.frame {h h' : Heap} {b : Block} (ok : BlockOk h b)
    (table : ∀ c ∈ b.clusters, h'.memsmall c = h.memsmall c)
    (header : ∀ a, b.ptr - 8 ≤ a → a < b.ptr → h'.mem a = h.mem a) : BlockOk h' b := by
  have hptr := ok.ptr
  refine { ok with marked := ?_, header := ?_, magic := ?_ }
  · intro i hi
    rw [table _ (Block.mem_clusters.mpr ⟨by omega, by omega⟩)]
    exact ok.marked i hi
  · rw [← ok.header]
    exact Mem.loadWord_congr fun x lo hi => header x lo (by omega)
  · rw [← ok.magic]
    exact Mem.loadWord_congr fun x lo hi => header x (by omega) (by omega)

/-- Two live blocks that are not the same lie apart. -/
theorem HeapInv.disjoint {s : State} (inv : HeapInv s) {a b : Block} (ha : a ∈ s.live)
    (hb : b ∈ s.live) (hne : a ≠ b) : a.Apart b :=
  inv.apart.forall ha hb hne

theorem HeapInv.nodup {s : State} (inv : HeapInv s) : s.live.Nodup := by
  refine List.Pairwise.imp_of_mem ?_ inv.apart
  intro a b ha hb hdis heq
  subst heq
  have hmem := (inv.block a ha).mem_cluster
  exact Finset.disjoint_left.mp hdis hmem hmem

/-! ### What one call of `malloc` does -/

/-- The two header words that `malloc` writes below the user pointer. -/
def Heap.writeHeader (h : Heap) (block : Nat) : Heap :=
  { h with
    mem := (h.mem.storeWord (userPointer block - 8) block).storeWord (userPointer block - 4) 0x1234567 }

@[simp] theorem Heap.writeHeader_start (h : Heap) (block : Nat) :
    (h.writeHeader block).memoryManagerStartAddress = h.memoryManagerStartAddress := rfl

theorem Heap.writeHeader_of_not_mem {h : Heap} {block a : Nat}
    (ha : ¬ (userPointer block - 8 ≤ a ∧ a < userPointer block)) (hp : 8 ≤ userPointer block) :
    (h.writeHeader block).mem a = h.mem a := by
  change ((h.mem.storeWord _ _).storeWord _ _) a = _
  rw [Mem.storeWord_of_not_mem (by omega), Mem.storeWord_of_not_mem (by omega)]

/-- A call of `malloc` either finds no run and writes a header below the arena, or claims the first run
    that fits and writes the header into its first cluster. -/
theorem malloc_cases {h : Heap} (start : h.memoryManagerStartAddress = memoryManagerStart)
    (size : Nat) :
    (mallocBlock h size = none ∧ (0x500000 < paddedSize size ∨
        firstFit h (clusterCount (paddedSize size)) = none) ∧
      malloc h size = (0x100, h.writeHeader 0)) ∨
    (∃ c, paddedSize size ≤ 0x500000 ∧ firstFit h (clusterCount (paddedSize size)) = some c ∧
      mallocBlock h size = some
        { ptr := memoryManagerStart + c * 0x4000 + 0x100
          size := size
          cluster := c
          count := clusterCount (paddedSize size) } ∧
      malloc h size = (memoryManagerStart + c * 0x4000 + 0x100,
        (h.claim c (clusterCount (paddedSize size))).writeHeader (memoryManagerStart + c * 0x4000))) := by
  have hzero : userPointer 0 = 0x100 := by decide
  by_cases hfits : paddedSize size ≤ 0x500000
  · have ht := tMalloc_eq h hfits
    cases hfit : firstFit h (clusterCount (paddedSize size)) with
    | none =>
        rw [hfit] at ht
        refine Or.inl ⟨?_, Or.inr rfl, ?_⟩
        · simp only [mallocBlock, ht, if_true]
        · simp only [malloc, ht, hzero]
          simp only [Heap.writeHeader, hzero]
    | some c =>
        rw [hfit] at ht
        obtain ⟨hlo, hhi, -, -⟩ := firstFit_eq_some.mp hfit
        have haddr := clusterAddress_eq start hhi
        have hpos : memoryManagerStart + c * 0x4000 ≠ 0 := by simp only [memoryManagerStart]; omega
        have hptr := userPointer_cluster hhi
        have hm : malloc h size = (memoryManagerStart + c * 0x4000 + 0x100,
            (h.claim c (clusterCount (paddedSize size))).writeHeader
              (memoryManagerStart + c * 0x4000)) := by
          simp only [malloc, ht, haddr, Heap.writeHeader, hptr]
        refine Or.inr ⟨c, hfits, rfl, ?_, hm⟩
        simp only [mallocBlock, ht, haddr, if_neg hpos, hm, start]
        congr 2
        omega
  · have ht := tMalloc_of_gt h (show 0x500000 < paddedSize size by omega)
    refine Or.inl ⟨?_, Or.inl (by omega), ?_⟩
    · simp only [mallocBlock, ht, if_true]
    · simp only [malloc, ht, hzero]
      simp only [Heap.writeHeader, hzero]

/-- The table of a heap whose start is known, byte by byte. -/
theorem memsmall_eq {h : Heap} (start : h.memoryManagerStartAddress = memoryManagerStart) (c : Nat) :
    h.memsmall c = h.mem (memoryManagerStart + c) := by
  rw [Heap.memsmall, Heap.entry, start]

/-- A header never lies in the table page. -/
theorem writeHeader_memsmall {h : Heap} (start : h.memoryManagerStartAddress = memoryManagerStart)
    {c block : Nat} (hp : 8 ≤ userPointer block)
    (hblock : userPointer block ≤ memoryManagerStart ∨ memoryManagerStart + 0x4000 ≤ userPointer block - 8)
    (hc : c < 0x4000) : (h.writeHeader block).memsmall c = h.memsmall c := by
  rw [memsmall_eq start, memsmall_eq (by simpa using start)]
  exact Heap.writeHeader_of_not_mem (by omega) hp

/-- The header of a failed call leaves the table alone. -/
theorem writeHeader_zero_memsmall {h : Heap}
    (start : h.memoryManagerStartAddress = memoryManagerStart) {i : Nat} (hi : i < 0x4000) :
    (h.writeHeader 0).memsmall i = h.memsmall i := by
  have hzero : userPointer 0 = 0x100 := by decide
  refine writeHeader_memsmall start (by rw [hzero]; omega) (Or.inl ?_) hi
  rw [hzero, memoryManagerStart]
  omega

/-- The header of a claimed run leaves the table as the claim made it. -/
theorem writeHeader_claim_memsmall {h : Heap}
    (start : h.memoryManagerStartAddress = memoryManagerStart) {c k i : Nat} (lo : 1 ≤ c) (hi : c ≤ 0x3ff)
    (hpage : i < 0x4000) :
    ((h.claim c k).writeHeader (memoryManagerStart + c * 0x4000)).memsmall i = (h.claim c k).memsmall i := by
  refine writeHeader_memsmall (by exact start) ?_ (Or.inr ?_) hpage
  · rw [userPointer_cluster hi]
    omega
  · rw [userPointer_cluster hi]
    omega

/-! ### Every step keeps the invariant -/

/-- All table bytes of a block lie in the table page. -/
theorem BlockOk.lt_page {h : Heap} {b : Block} (ok : BlockOk h b) {c : Nat} (hc : c ∈ b.clusters) :
    c < 0x4000 := by
  have hcount := ok.count_cases
  have hlast := ok.last
  obtain ⟨-, hi⟩ := Block.mem_clusters.mp hc
  omega

theorem inv_initial (mem : Mem) : HeapInv (State.initial mem) where
  start := rfl
  table := by
    change ((mem.fill memoryManagerStart 0x4000 0).store memoryManagerStart 0xff) memoryManagerStart ≠ 0
    rw [Mem.store_self]
    decide
  apart := List.Pairwise.nil
  block := by
    intro b hb
    simp [State.initial] at hb

theorem inv_malloc {s : State} (inv : HeapInv s) {size : Nat} (noWrap : size + 0x200 < 2 ^ 32) :
    HeapInv (s.malloc size) := by
  rcases malloc_cases inv.start size with ⟨hb, -, hm⟩ | ⟨c, hfits, hfit, hb, hm⟩
  · -- nothing was found: the header lies below the arena
    have hzero : userPointer 0 = 0x100 := by decide
    simp only [State.malloc, hb, hm, Option.toList_none, List.nil_append]
    refine ⟨inv.start, ?_, inv.apart, ?_⟩
    · rw [writeHeader_zero_memsmall inv.start (by omega)]
      exact inv.table
    · intro b hmem
      have ok := inv.block b hmem
      refine ok.frame (fun c hc => writeHeader_zero_memsmall inv.start (ok.lt_page hc)) fun a lo hi => ?_
      refine Heap.writeHeader_of_not_mem ?_ (by rw [hzero]; omega)
      have hptr := ok.ptr
      simp only [memoryManagerStart] at hptr
      rw [hzero]
      omega
  · obtain ⟨hlo, hhi, hrun, -⟩ := firstFit_eq_some.mp hfit
    have hk := clusterCount_cases hfits
    set k := clusterCount (paddedSize size) with hkdef
    set p := memoryManagerStart + c * 0x4000 + 0x100 with hpdef
    have hptr : userPointer (memoryManagerStart + c * 0x4000) = p := userPointer_cluster hhi
    have hpbig : 8 ≤ p := by omega
    set h' := (s.heap.claim c k).writeHeader (memoryManagerStart + c * 0x4000) with hh'
    have hstart : h'.memoryManagerStartAddress = memoryManagerStart := inv.start
    have htable : ∀ i < 0x4000, h'.memsmall i = (s.heap.claim c k).memsmall i :=
      fun i hi => writeHeader_claim_memsmall inv.start hlo hhi hi
    have houtside : ∀ a, memoryManagerStart + 0x4000 ≤ a → ¬ (p - 8 ≤ a ∧ a < p) →
        h'.mem a = s.heap.mem a := by
      intro a ha hnot
      rw [hh', Heap.writeHeader_of_not_mem (by rw [hptr]; exact hnot) (by rw [hptr]; exact hpbig)]
      change (if _ then _ else _) = _
      rw [if_neg]
      rw [Heap.entry, inv.start]
      omega
    have hnew : BlockOk h' { ptr := p, size := size, cluster := c, count := k } := by
      refine ⟨hlo, hhi, noWrap, hfits, rfl, rfl, ?_, ?_, ?_⟩
      · intro i hi
        change h'.memsmall (c + i) = mark k i
        have hi' : i < k := hi
        rw [htable _ (by omega), Heap.claim_memsmall, if_pos (by omega)]
        congr 1
        omega
      · change (((s.heap.claim c k).mem.storeWord _ _).storeWord _ _).loadWord (p - 8) = _
        rw [hptr]
        calc _ = ((s.heap.claim c k).mem.storeWord (p - 8)
              (memoryManagerStart + c * 0x4000)).loadWord (p - 8) :=
              Mem.loadWord_congr fun x lo hi => Mem.storeWord_of_not_mem (by omega)
          _ = memoryManagerStart + c * 0x4000 :=
              Mem.loadWord_storeWord _ _ (by simp only [memoryManagerStart]; omega)
      · change (((s.heap.claim c k).mem.storeWord _ _).storeWord _ _).loadWord (p - 4) = _
        rw [hptr]
        exact Mem.loadWord_storeWord _ _ (by omega)
    -- the run was free and live blocks are not, so the new block meets none of them
    have hapart : ∀ b ∈ s.live, ∀ i ∈ b.clusters, ¬ (c ≤ i ∧ i < c + k) := by
      intro b hmem i hi hin
      refine (inv.block b hmem).memsmall_ne_zero hi ?_
      have := hrun (i - c) (by omega)
      rwa [show c + (i - c) = i by omega] at this
    simp only [State.malloc, hb, hm, Option.toList_some, List.singleton_append]
    refine ⟨hstart, ?_, ?_, ?_⟩
    · rw [htable 0 (by omega), Heap.claim_memsmall, if_neg (by omega)]
      exact inv.table
    · refine List.Pairwise.cons ?_ inv.apart
      intro b hmem
      refine Finset.disjoint_left.mpr fun i hi hib => hapart b hmem i hib ?_
      exact Block.mem_clusters.mp hi
    · intro b hmem
      rcases List.mem_cons.mp hmem with rfl | hold
      · exact hnew
      · have ok := inv.block b hold
        refine ok.frame ?_ ?_
        · intro i hi
          rw [htable i (ok.lt_page hi), Heap.claim_memsmall, if_neg (hapart b hold i hi)]
        · intro a lo hi
          have hbptr := ok.ptr
          have hfirst := ok.first
          refine houtside a (by omega) ?_
          have hne : ¬ (c ≤ b.cluster ∧ b.cluster < c + k) := hapart b hold _ ok.mem_cluster
          omega

/-- `free` of a live block is the release of its table bytes. -/
theorem free_live {h : Heap} {b : Block} (start : h.memoryManagerStartAddress = memoryManagerStart)
    (ok : BlockOk h b) : free h b.ptr = h.release b.cluster (releasedEnd b.cluster b.count) := by
  have hptr := ok.ptr
  have hlast := ok.last
  have haddr := clusterAddress_eq start ok.last
  have hk : b.count = 1 ∨ b.count = 4 ∨ 5 ≤ b.count := by
    have := ok.count_cases
    omega
  rw [free, if_neg (by omega), if_neg (by rw [ok.magic]; simp), ok.header, ← haddr]
  refine tFree_marked ok.marked ?_ ok.last hk
  rw [start, memoryManagerStart]
  omega

theorem releasedEnd_le (c k : Nat) : releasedEnd c k ≤ c + k ∨ releasedEnd c k = 0x400 ∧ 0x401 < c + k := by
  unfold releasedEnd
  split_ifs <;> omega

/-- `free` of a live block changes table bytes of that block only. -/
theorem free_live_memsmall {h : Heap} {b : Block}
    (start : h.memoryManagerStartAddress = memoryManagerStart) (ok : BlockOk h b) {c : Nat}
    (hc : c ∉ b.clusters) : (free h b.ptr).memsmall c = h.memsmall c := by
  have hend := releasedEnd_le b.cluster b.count
  rw [Block.mem_clusters] at hc
  rw [free_live start ok, Heap.release_memsmall, if_neg]
  omega

theorem inv_free {s : State} (inv : HeapInv s) {b : Block} (hb : b ∈ s.live) :
    HeapInv (s.free b) := by
  have ok := inv.block b hb
  have hlast := ok.last
  have hcount := ok.count_cases
  have hend := releasedEnd_le b.cluster b.count
  refine ⟨?_, ?_, inv.apart.sublist List.erase_sublist, ?_⟩
  · change (free s.heap b.ptr).memoryManagerStartAddress = _
    rw [free_live inv.start ok]
    exact inv.start
  · change (free s.heap b.ptr).memsmall 0 ≠ 0
    have hfirst := ok.first
    rw [free_live_memsmall inv.start ok (by rw [Block.mem_clusters]; omega)]
    exact inv.table
  · intro b' hb'
    have hne : b' ≠ b := (inv.nodup.mem_erase_iff.mp hb').1
    have hold : b' ∈ s.live := List.mem_of_mem_erase hb'
    have ok' := inv.block b' hold
    have hfirst := ok'.first
    have hptr := ok'.ptr
    refine ok'.frame ?_ ?_
    · intro c hc
      exact free_live_memsmall inv.start ok fun hcb =>
        Finset.disjoint_left.mp (inv.disjoint hold hb hne) hc hcb
    · -- headers lie above the table page
      intro a lo hi
      change (free s.heap b.ptr).mem a = _
      rw [free_live inv.start ok]
      refine Mem.fill_of_not_mem ?_
      rw [Heap.entry, inv.start]
      omega

theorem inv_store {s : State} (inv : HeapInv s) {b : Block} (hb : b ∈ s.live) {a : Nat} {v : UInt8}
    (inside : b.ptr ≤ a ∧ a < b.ptr + b.size) :
    HeapInv { s with heap := { s.heap with mem := s.heap.mem.store a v } } := by
  have ok := inv.block b hb
  have hfirst := ok.first
  have hptr := ok.ptr
  have hend := ok.user_le
  have htable : ∀ c < 0x4000,
      ({ s.heap with mem := s.heap.mem.store a v } : Heap).memsmall c = s.heap.memsmall c := by
    intro c hc
    rw [memsmall_eq inv.start, memsmall_eq (by exact inv.start)]
    exact Mem.store_of_ne (by omega)
  refine ⟨inv.start, ?_, inv.apart, ?_⟩
  · rw [htable 0 (by omega)]
    exact inv.table
  · intro b' hb'
    have ok' := inv.block b' hb'
    refine ok'.frame (fun c hc => htable c (ok'.lt_page hc)) ?_
    intro x lo hi
    have hptr' := ok'.ptr
    refine Mem.store_of_ne ?_
    by_cases hne : b' = b
    · subst hne
      omega
    · -- the header is in the first cluster of the other block, which is not one of `b`
      have hnot : b'.cluster ∉ b.clusters := fun hcb =>
        Finset.disjoint_left.mp (inv.disjoint hb' hb hne) ok'.mem_cluster hcb
      rw [Block.mem_clusters] at hnot
      omega

theorem inv_step {s s' : State} (step : Step s s') (inv : HeapInv s) : HeapInv s' := by
  cases step with
  | malloc size noWrap => exact inv_malloc inv noWrap
  | free b live => exact inv_free inv live
  | store b live a v inside => exact inv_store inv live inside

/-- The invariant holds in every reachable state. -/
theorem reachable_inv {s : State} (run : Reachable s) : HeapInv s := by
  obtain ⟨mem, run⟩ := run
  induction run with
  | refl => exact inv_initial mem
  | tail _ step ih => exact inv_step step ih

end Cromwell.MemoryManager
