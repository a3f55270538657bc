/-
Module: Cromwell.MemoryManager.Safety
Layer: Proofs
Purpose: What runs over the heap guarantee. Live blocks never overlap and keep to the clusters reserved
  for them, whatever the order of calls (`heap_safety`). Two properties hold only under a condition on
  the table before each `malloc`: that freeing gives back exactly what was taken
  (`free_undoes_malloc`), which fails for blocks of five clusters and for long blocks whose tail lies
  beyond entry `0x400`, and that blocks stay inside the arena (`tMalloc_in_arena`), which fails when the
  first free run crosses the end of the table.
Imports: Cromwell.MemoryManager.Run
Trusted boundary: none
Main exports: heap_safety, Releasable, free_undoes_malloc, InArena, tMalloc_in_arena
-/
import Cromwell.MemoryManager.Run

namespace Cromwell.MemoryManager

open ByteMemory

/-! ### Disjointness and containment over whole runs -/

/-- The clusters of a new block were free and are taken, and no other table byte moves. -/
theorem mallocBlock_reserves {s : State} (inv : HeapInv s) {size : Nat} {b : Block}
    (hb : mallocBlock s.heap size = some b) {c : Nat} (hc : c < 0x4000) :
    (c ∈ b.clusters → s.heap.memsmall c = 0 ∧ (malloc s.heap size).2.memsmall c ≠ 0) ∧
      (c ∉ b.clusters → (malloc s.heap size).2.memsmall c = s.heap.memsmall c) := by
  rcases malloc_cases inv.start size with ⟨hnone, -, -⟩ | ⟨c₀, hfits, hfit, hsome, hm⟩
  · rw [hnone] at hb
    exact absurd hb (by simp)
  · rw [hsome] at hb
    obtain ⟨hlo, hhi, hrun, -⟩ := firstFit_eq_some.mp hfit
    cases hb
    rw [Block.mem_clusters, hm, writeHeader_claim_memsmall inv.start hlo hhi hc, Heap.claim_memsmall]
    constructor
    · intro hin
      have hin' : c₀ ≤ c ∧ c < c₀ + clusterCount (paddedSize size) := hin
      rw [if_pos hin']
      have hfree := hrun (c - c₀) (by omega)
      rw [show c₀ + (c - c₀) = c by omega] at hfree
      exact ⟨hfree, mark_ne_zero (by omega)⟩
    · intro hout
      exact if_neg hout

/-- Heap safety over whole runs. In every reachable state the live blocks lie apart, away from the table,
    marked as taken, and hold their header and their user bytes; `free` of one leaves the table bytes of
    the others alone, and a new block takes exactly the clusters recorded for it, all of them free. -/
theorem heap_safety {s : State} (run : Reachable s) :
    s.live.Pairwise Block.Apart ∧
    (∀ b ∈ s.live, 0 ∉ b.clusters ∧ (∀ c ∈ b.clusters, s.heap.memsmall c ≠ 0) ∧
      memoryManagerStart + b.cluster * 0x4000 + 8 ≤ b.ptr ∧
      b.ptr + b.size ≤ memoryManagerStart + (b.cluster + b.count) * 0x4000) ∧
    (∀ b ∈ s.live, ∀ b' ∈ s.live, b' ≠ b → ∀ c ∈ b'.clusters,
      (free s.heap b.ptr).memsmall c = s.heap.memsmall c) ∧
    (∀ size b, size + 0x200 < 2 ^ 32 → mallocBlock s.heap size = some b →
      b.ptr = (malloc s.heap size).1 ∧ b.size = size ∧ ∀ c < 0x4000,
        (c ∈ b.clusters → s.heap.memsmall c = 0 ∧ (malloc s.heap size).2.memsmall c ≠ 0) ∧
        (c ∉ b.clusters → (malloc s.heap size).2.memsmall c = s.heap.memsmall c)) := by
  have inv := reachable_inv run
  refine ⟨inv.apart, ?_, ?_, ?_⟩
  · intro b hb
    have ok := inv.block b hb
    have hfirst := ok.first
    have hptr := ok.ptr
    refine ⟨?_, fun c hc => ok.memsmall_ne_zero hc, by omega, ok.user_le⟩
    rw [Block.mem_clusters]
    omega
  · intro b hb b' hb' hne c hc
    exact free_live_memsmall inv.start (inv.block b hb) fun hcb =>
      Finset.disjoint_left.mp (inv.disjoint hb' hb hne) hc hcb
  · intro size b noWrap hb
    have hfields : b.ptr = (malloc s.heap size).1 ∧ b.size = size := by
      simp only [mallocBlock] at hb
      split_ifs at hb
      cases hb
      exact ⟨rfl, rfl⟩
    exact ⟨hfields.1, hfields.2, fun c hc => mallocBlock_reserves inv hb hc⟩

/-- Grown a zeroed memory, a block of each encoding: one cluster, four clusters and a run of six. -/
def threeClasses : State := (((State.initial fun _ => 0).malloc 16).malloc 0x8000).malloc 0x15000

theorem threeClasses_reachable : Reachable threeClasses :=
  ⟨fun _ => 0, ((Relation.ReflTransGen.single (.malloc _ 16 (by decide))).tail
    (.malloc _ 0x8000 (by decide))).tail (.malloc _ 0x15000 (by decide))⟩

/-- The blocks of four and of six clusters lie apart; freeing the one of four leaves the table bytes of the other, and
    the next block of its class takes its clusters again, next to the two that are still alive. -/
theorem heap_safety_three_classes :
    threeClasses.live =
      [⟨0x02A18100, 0x15000, 6, 6⟩, ⟨0x02A08100, 0x8000, 2, 4⟩, ⟨0x02A04100, 16, 1, 1⟩] ∧
    threeClasses.live.Pairwise Block.Apart ∧
    (0x02A18100 + 0x15000 ≤ memoryManagerStart + 12 * 0x4000) ∧
    (∀ c ∈ Finset.Ico 6 12, threeClasses.heap.memsmall c ≠ 0 ∧
      (free threeClasses.heap 0x02A08100).memsmall c = threeClasses.heap.memsmall c) ∧
    (threeClasses.free ⟨0x02A08100, 0x8000, 2, 4⟩).live.Pairwise Block.Apart ∧
    ∀ c < 0x4000,
      (c ∈ Finset.Ico 2 6 → (threeClasses.free ⟨0x02A08100, 0x8000, 2, 4⟩).heap.memsmall c = 0) ∧
      (c ∉ Finset.Ico 2 6 →
        (malloc (threeClasses.free ⟨0x02A08100, 0x8000, 2, 4⟩).heap 0x8000).2.memsmall c =
          (threeClasses.free ⟨0x02A08100, 0x8000, 2, 4⟩).heap.memsmall c) := by
  have hlive : threeClasses.live =
      [⟨0x02A18100, 0x15000, 6, 6⟩, ⟨0x02A08100, 0x8000, 2, 4⟩, ⟨0x02A04100, 16, 1, 1⟩] := by
    decide +kernel
  have hlong : (⟨0x02A18100, 0x15000, 6, 6⟩ : Block) ∈ threeClasses.live := by
    rw [hlive]
    exact List.mem_cons_self
  have hfour : (⟨0x02A08100, 0x8000, 2, 4⟩ : Block) ∈ threeClasses.live := by
    rw [hlive]
    exact List.mem_cons_of_mem _ List.mem_cons_self
  have hnext : mallocBlock (threeClasses.free ⟨0x02A08100, 0x8000, 2, 4⟩).heap 0x8000 =
      some ⟨0x02A08100, 0x8000, 2, 4⟩ := by decide +kernel
  obtain ⟨mem, run⟩ := threeClasses_reachable
  have freed : Reachable (threeClasses.free ⟨0x02A08100, 0x8000, 2, 4⟩) := ⟨mem, run.tail (.free _ _ hfour)⟩
  obtain ⟨hapart, hinside, hothers, -⟩ := heap_safety ⟨mem, run⟩
  obtain ⟨hapart', -, -, hnew⟩ := heap_safety freed
  obtain ⟨-, -, hbytes⟩ := hnew 0x8000 _ (by decide) hnext
  obtain ⟨-, hmarked, -, hend⟩ := hinside _ hlong
  refine ⟨hlive, hapart, hend, ?_, hapart', fun c hc => ⟨fun hin => ((hbytes c hc).1 hin).1, (hbytes c hc).2⟩⟩
  intro c hc
  exact ⟨hmarked c hc, hothers _ hfour _ hlong (by decide) c hc⟩

/-! ### Runs under a condition on each `malloc` -/

/-- Steps in which every `malloc` meets a condition on the heap before the call. -/
inductive StepWhen (ok : Heap → Nat → Prop) : State → State → Prop where
  | malloc (s : State) (size : Nat) (noWrap : size + 0x200 < 2 ^ 32) (cond : ok s.heap size) :
      StepWhen ok s (s.malloc size)
  | free (s : State) (b : Block) (live : b ∈ s.live) : StepWhen ok s (s.free b)
  | store (s : State) (b : Block) (live : b ∈ s.live) (a : Nat) (v : UInt8)
      (inside : b.ptr ≤ a ∧ a < b.ptr + b.size) :
      StepWhen ok s { s with heap := { s.heap with mem := s.heap.mem.store a v } }

theorem StepWhen.step {ok : Heap → Nat → Prop} {s s' : State} (h : StepWhen ok s s') : Step s s' := by
  cases h with
  | malloc size noWrap _ => exact .malloc s size noWrap
  | free b live => exact .free s b live
  | store b live a v inside => exact .store s b live a v inside

/-! ### Freeing gives back what was taken -/

/-- The condition under which a block can be given back whole: it does not take five clusters, and if it
    takes more, some free run of that length ends at or before table entry `0x400`. -/
def Releasable (h : Heap) (size : Nat) : Prop :=
  clusterCount (paddedSize size) ≠ 5 ∧
    (clusterCount (paddedSize size) ≤ 4 ∨
      ∃ c, 1 ≤ c ∧ c + clusterCount (paddedSize size) ≤ 0x401 ∧
        FreeRun h c (clusterCount (paddedSize size)))

theorem releasedEnd_eq_iff {c k : Nat} (hk : 0 < k) :
    releasedEnd c k = c + k ↔ k ≠ 5 ∧ (k ≤ 4 ∨ c + k ≤ 0x401) := by
  unfold releasedEnd
  split_ifs <;> omega

/-- The first fit can be given back whole exactly when the condition holds. -/
theorem releasable_iff {h : Heap} {size c : Nat} (hfits : paddedSize size ≤ 0x500000)
    (hfit : firstFit h (clusterCount (paddedSize size)) = some c) :
    Releasable h size ↔
      releasedEnd c (clusterCount (paddedSize size)) = c + clusterCount (paddedSize size) := by
  have hk := clusterCount_cases hfits
  obtain ⟨hlo, hhi, hrun, hleast⟩ := firstFit_eq_some.mp hfit
  rw [Releasable, releasedEnd_eq_iff (by omega)]
  refine and_congr_right fun _ => or_congr_right ⟨?_, fun hend => ⟨c, hlo, hend, hrun⟩⟩
  rintro ⟨c', hlo', hend, hrun'⟩
  by_contra hcross
  exact hleast c' hlo' (by omega) hrun'

/-- Invariant of runs in which nothing is given back: over a table from before, nothing is marked but live blocks, and
    where they are nothing was marked. -/
structure Grown (base : Nat → UInt8) (s : State) : Prop extends HeapInv s where
  rest : ∀ c < 0x4000, (∀ b ∈ s.live, c ∉ b.clusters) → s.heap.memsmall c = base c
  unused : ∀ b ∈ s.live, ∀ c ∈ b.clusters, base c = 0

/-- Invariant of runs whose blocks can all be given back. -/
structure Tidy (base : Nat → UInt8) (s : State) : Prop extends Grown base s where
  whole : ∀ b ∈ s.live, releasedEnd b.cluster b.count = b.cluster + b.count

theorem initial_memsmall (mem : Mem) {c : Nat} (hc : c < 0x4000) :
    (State.initial mem).heap.memsmall c = if c = 0 then 0xff else 0 := by
  change ((mem.fill memoryManagerStart 0x4000 0).store memoryManagerStart 0xff)
    (memoryManagerStart + c) = _
  by_cases h0 : c = 0
  · subst h0
    rw [if_pos rfl]
    exact Mem.store_self _ _ _
  · rw [if_neg h0, Mem.store_of_ne (by omega), Mem.fill_of_mem (by omega) (by omega)]

variable {base : Nat → UInt8}

/-- A heap of which no block is known. -/
theorem Tidy.of_table {h : Heap} (start : h.memoryManagerStartAddress = memoryManagerStart)
    (table : h.memsmall 0 ≠ 0) : Tidy h.memsmall ⟨h, []⟩ where
  start := start
  table := table
  apart := List.Pairwise.nil
  block := List.forall_mem_nil _
  rest := fun _ _ _ => rfl
  unused := List.forall_mem_nil _
  whole := List.forall_mem_nil _

theorem Grown.malloc {s : State} (grown : Grown base s) {size : Nat} (noWrap : size + 0x200 < 2 ^ 32) :
    Grown base (s.malloc size) := by
  have hinv := inv_malloc grown.toHeapInv noWrap
  cases hb : mallocBlock s.heap size with
  | none =>
      have hlive : (s.malloc size).live = s.live := by simp [State.malloc, hb]
      refine ⟨hinv, ?_, by rw [hlive]; exact grown.unused⟩
      rw [hlive]
      intro c hc hnone
      rcases malloc_cases grown.start size with ⟨-, -, hm⟩ | ⟨c₀, -, -, hsome, -⟩
      · change (MemoryManager.malloc s.heap size).2.memsmall c = _
        rw [hm, writeHeader_zero_memsmall grown.start hc]
        exact grown.rest c hc hnone
      · rw [hsome] at hb
        exact absurd hb (by simp)
  | some b =>
      have hlive : (s.malloc size).live = b :: s.live := by simp [State.malloc, hb]
      refine ⟨hinv, ?_, ?_⟩
      · rw [hlive]
        intro c hc hnone
        change (MemoryManager.malloc s.heap size).2.memsmall c = _
        rw [(mallocBlock_reserves grown.toHeapInv hb hc).2 (hnone b List.mem_cons_self)]
        exact grown.rest c hc fun b' hb' => hnone b' (List.mem_cons_of_mem _ hb')
      · intro b' hb' c hc
        rw [hlive] at hb'
        rcases List.mem_cons.mp hb' with rfl | hold
        · have hnew : b' ∈ (s.malloc size).live := by
            rw [hlive]
            exact List.mem_cons_self
          have hpage := (hinv.block b' hnew).lt_page hc
          have hfree := ((mallocBlock_reserves grown.toHeapInv hb hpage).1 hc).1
          -- what was free is in no live block
          rw [← grown.rest c hpage fun b'' hb'' hin => (grown.block b'' hb'').memsmall_ne_zero hin hfree]
          exact hfree
        · exact grown.unused b' hold c hc

/-- Freeing a block that can be given back whole clears exactly its clusters. -/
theorem Tidy.free_memsmall {s : State} (tidy : Tidy base s) {b : Block} (hb : b ∈ s.live) (c : Nat) :
    (free s.heap b.ptr).memsmall c = if c ∈ b.clusters then 0 else s.heap.memsmall c := by
  rw [free_live tidy.start (tidy.block b hb), Heap.release_memsmall, tidy.whole b hb]
  simp only [Block.mem_clusters]

theorem Tidy.free {s : State} (tidy : Tidy base s) {b : Block} (hb : b ∈ s.live) : Tidy base (s.free b) := by
  have hold : ∀ b' ∈ (s.free b).live, b' ∈ s.live := fun b' hb' => List.mem_of_mem_erase hb'
  refine ⟨⟨inv_free tidy.toHeapInv hb, ?_, fun b' hb' => tidy.unused b' (hold b' hb')⟩,
    fun b' hb' => tidy.whole b' (hold b' hb')⟩
  intro c hc hnone
  change (MemoryManager.free s.heap b.ptr).memsmall c = _
  rw [tidy.free_memsmall hb]
  by_cases hcb : c ∈ b.clusters
  · rw [if_pos hcb, tidy.unused b hb c hcb]
  · rw [if_neg hcb]
    refine tidy.rest c hc fun b' hb' hcb' => ?_
    by_cases hne : b' = b
    · exact hcb (hne ▸ hcb')
    · exact hnone b' ((List.mem_erase_of_ne hne).mpr hb') hcb'

theorem Tidy.malloc {s : State} (tidy : Tidy base s) {size : Nat} (noWrap : size + 0x200 < 2 ^ 32)
    (cond : mallocBlock s.heap size = none ∨ Releasable s.heap size) : Tidy base (s.malloc size) := by
  refine ⟨tidy.toGrown.malloc noWrap, ?_⟩
  intro b' hb'
  rcases malloc_cases tidy.start size with ⟨hnone, -, -⟩ | ⟨c₀, hfits, hfit, hsome, -⟩
  · have hlive : (s.malloc size).live = s.live := by simp [State.malloc, hnone]
    rw [hlive] at hb'
    exact tidy.whole b' hb'
  · have hrel : Releasable s.heap size := by
      rcases cond with hnone | hrel
      · rw [hnone] at hsome
        exact absurd hsome (by simp)
      · exact hrel
    simp only [State.malloc, hsome, Option.toList_some, List.singleton_append, List.mem_cons] at hb'
    rcases hb' with rfl | hold
    · exact (releasable_iff hfits hfit).mp hrel
    · exact tidy.whole b' hold

theorem Tidy.store {s : State} (tidy : Tidy base s) {b : Block} (hb : b ∈ s.live) {a : Nat} {v : UInt8}
    (inside : b.ptr ≤ a ∧ a < b.ptr + b.size) :
    Tidy base { s with heap := { s.heap with mem := s.heap.mem.store a v } } := by
  refine ⟨⟨inv_store tidy.toHeapInv hb inside, fun c hc hnone => ?_, tidy.unused⟩, tidy.whole⟩
  have hfirst := (tidy.block b hb).first
  have hptr := (tidy.block b hb).ptr
  rw [← tidy.rest c hc hnone, memsmall_eq tidy.start, memsmall_eq (by exact tidy.start)]
  exact Mem.store_of_ne (by omega)

/-- Runs in which every `malloc` that succeeds meets `Releasable`. -/
def TidyRun (mem : Mem) (s : State) : Prop :=
  Relation.ReflTransGen
    (StepWhen fun h size => mallocBlock h size = none ∨ Releasable h size) (State.initial mem) s

theorem tidyRun_tidy {mem : Mem} {s : State} (run : TidyRun mem s) : Tidy (State.initial mem).heap.memsmall s := by
  induction run with
  | refl => exact Tidy.of_table rfl (inv_initial mem).table
  | tail _ step ih =>
      cases step with
      | malloc size noWrap cond => exact ih.malloc noWrap cond
      | free b live => exact ih.free live
      | store b live a v inside => exact ih.store live inside

/-- Free a list of blocks in turn. -/
def State.freeAll (s : State) (order : List Block) : State := order.foldl State.free s

/-- After freeing every live block, in any order, the table is that from before. -/
theorem Tidy.freeAll {s : State} (tidy : Tidy base s) {order : List Block} (all : order.Perm s.live) :
    Tidy base (s.freeAll order) ∧ (s.freeAll order).live = [] := by
  induction order generalizing s with
  | nil => exact ⟨tidy, List.nil_perm.mp all⟩
  | cons b order ih =>
      have hb : b ∈ s.live := all.subset List.mem_cons_self
      exact ih (tidy.free hb) (List.cons_perm_iff_perm_erase.mp all).2

/-- Freeing the live blocks leaves the table bytes of other clusters alone. -/
theorem HeapInv.freeAll_memsmall {s : State} (inv : HeapInv s) {order : List Block} (all : order.Perm s.live) {c : Nat}
    (hc : ∀ b ∈ order, c ∉ b.clusters) : (s.freeAll order).heap.memsmall c = s.heap.memsmall c := by
  induction order generalizing s with
  | nil => rfl
  | cons b order ih =>
      have hb : b ∈ s.live := all.subset List.mem_cons_self
      have hrest := ih (inv_free inv hb) (List.cons_perm_iff_perm_erase.mp all).2
        fun b' hb' => hc b' (List.mem_cons_of_mem _ hb')
      exact hrest.trans (free_live_memsmall inv.start (inv.block b hb) (hc b List.mem_cons_self))

/-- When one of the blocks may not be given back whole, the table is that from before exactly when it is. -/
theorem Grown.freeAll_restores_iff {s : State} (grown : Grown base s) {b : Block} {order : List Block}
    (all : (b :: order).Perm s.live) (others : ∀ b' ∈ order, releasedEnd b'.cluster b'.count = b'.cluster + b'.count) :
    (∀ c < 0x4000, (s.freeAll (b :: order)).heap.memsmall c = base c) ↔
      releasedEnd b.cluster b.count = b.cluster + b.count := by
  have hb : b ∈ s.live := all.subset List.mem_cons_self
  have ok := grown.block b hb
  constructor
  · intro hrestored
    by_contra hshort
    have hlast := ok.last
    have hend := releasedEnd_le b.cluster b.count
    have hge : b.cluster ≤ releasedEnd b.cluster b.count := by
      unfold releasedEnd
      split_ifs <;> omega
    -- the first byte that was not cleared stays marked, and nothing was marked there before
    have hin : releasedEnd b.cluster b.count ∈ b.clusters := Block.mem_clusters.mpr ⟨hge, by omega⟩
    have hmarked : (s.free b).heap.memsmall (releasedEnd b.cluster b.count) ≠ 0 := by
      change (free s.heap b.ptr).memsmall _ ≠ 0
      rw [free_live grown.start ok, Heap.release_memsmall, if_neg (by omega)]
      exact ok.memsmall_ne_zero hin
    obtain ⟨hmem, hrest⟩ := List.cons_perm_iff_perm_erase.mp all
    have hstays : (s.freeAll (b :: order)).heap.memsmall (releasedEnd b.cluster b.count) =
        (s.free b).heap.memsmall (releasedEnd b.cluster b.count) := by
      apply (inv_free grown.toHeapInv hb).freeAll_memsmall hrest
      intro b' hb' hin'
      have herase := hrest.subset hb'
      have hne : b' ≠ b := (grown.toHeapInv.nodup.mem_erase_iff.mp herase).1
      exact Finset.disjoint_left.mp (grown.toHeapInv.disjoint (List.mem_of_mem_erase herase) hb hne) hin' hin
    rw [← hstays, hrestored _ (ok.lt_page hin)] at hmarked
    exact hmarked (grown.unused b hb _ hin)
  · intro hwhole c hc
    have tidy : Tidy base s := by
      refine ⟨grown, fun b' hb' => ?_⟩
      rcases List.mem_cons.mp (all.symm.subset hb') with rfl | hmem
      · exact hwhole
      · exact others b' hmem
    obtain ⟨htidy, hempty⟩ := tidy.freeAll all
    exact htidy.rest c hc (by simp [hempty])

/-- The pointers returned by a sequence of `malloc` calls. -/
def mallocs : Heap → List Nat → List Nat
  | _, [] => []
  | h, size :: sizes => (malloc h size).1 :: mallocs (malloc h size).2 sizes

/-- Two heaps with the same table. -/
structure SameTable (h h' : Heap) : Prop where
  start : h.memoryManagerStartAddress = memoryManagerStart
  start' : h'.memoryManagerStartAddress = memoryManagerStart
  bytes : ∀ c < 0x4000, h.memsmall c = h'.memsmall c

theorem SameTable.firstFit {h h' : Heap} (same : SameTable h h') {k : Nat} (hk : k ≤ 321) :
    firstFit h k = firstFit h' k := by
  have hrun : ∀ c ∈ counters, FreeRun h c k ↔ FreeRun h' c k := by
    intro c hc
    rw [counters, List.mem_range'_1] at hc
    refine forall₂_congr fun i hi => ?_
    rw [same.bytes (c + i) (by omega)]
  unfold MemoryManager.firstFit
  refine List.find?_congr fun c hc => ?_
  exact decide_eq_decide.mpr (hrun c hc)

/-- `malloc` reads nothing of the heap but the table. -/
theorem SameTable.malloc {h h' : Heap} (same : SameTable h h') (size : Nat) :
    (MemoryManager.malloc h size).1 = (MemoryManager.malloc h' size).1 ∧
      SameTable (MemoryManager.malloc h size).2 (MemoryManager.malloc h' size).2 := by
  have hfit : paddedSize size ≤ 0x500000 →
      MemoryManager.firstFit h (clusterCount (paddedSize size)) =
        MemoryManager.firstFit h' (clusterCount (paddedSize size)) := by
    intro hfits
    have := clusterCount_cases hfits
    exact same.firstFit (by omega)
  rcases malloc_cases same.start size with ⟨-, hno, hm⟩ | ⟨c, hfits, hsome, -, hm⟩
  · rcases malloc_cases same.start' size with ⟨-, -, hm'⟩ | ⟨c', hfits', hsome', -, -⟩
    · rw [hm, hm']
      refine ⟨rfl, same.start, same.start', fun c hc => ?_⟩
      rw [writeHeader_zero_memsmall same.start hc, writeHeader_zero_memsmall same.start' hc]
      exact same.bytes c hc
    · rcases hno with hgt | hno
      · omega
      · rw [hfit hfits', hsome'] at hno
        exact absurd hno (by simp)
  · rcases malloc_cases same.start' size with ⟨-, hno', -⟩ | ⟨c', hfits', hsome', -, hm'⟩
    · rcases hno' with hgt | hno'
      · omega
      · rw [← hfit hfits, hsome] at hno'
        exact absurd hno' (by simp)
    · have hcc : c = c' := by
        rw [hfit hfits, hsome'] at hsome
        exact (Option.some.inj hsome).symm
      subst hcc
      obtain ⟨hlo, hhi, -, -⟩ := firstFit_eq_some.mp hsome
      rw [hm, hm']
      refine ⟨rfl, same.start, same.start', fun i hi => ?_⟩
      rw [writeHeader_claim_memsmall same.start hlo hhi hi,
        writeHeader_claim_memsmall same.start' hlo hhi hi, Heap.claim_memsmall, Heap.claim_memsmall,
        same.bytes i hi]

theorem SameTable.mallocs {h h' : Heap} (same : SameTable h h') (sizes : List Nat) :
    MemoryManager.mallocs h sizes = MemoryManager.mallocs h' sizes := by
  induction sizes generalizing h h' with
  | nil => rfl
  | cons size sizes ih =>
      obtain ⟨hptr, hsame⟩ := same.malloc size
      simp only [MemoryManager.mallocs, hptr, ih hsame]

/-- In any state with the invariant, `free` undoes a successful `malloc` exactly when the block can be
    given back whole. -/
theorem malloc_free_memsmall_iff {s : State} (inv : HeapInv s) {size : Nat} {b : Block}
    (noWrap : size + 0x200 < 2 ^ 32) (hb : mallocBlock s.heap size = some b) :
    (∀ c < 0x4000, (free (malloc s.heap size).2 b.ptr).memsmall c = s.heap.memsmall c) ↔
      Releasable s.heap size := by
  have inv' := inv_malloc inv noWrap
  have hlive : b ∈ (s.malloc size).live := by simp [State.malloc, hb]
  have ok : BlockOk (malloc s.heap size).2 b := inv'.block b hlive
  have hfree : free (malloc s.heap size).2 b.ptr =
      (malloc s.heap size).2.release b.cluster (releasedEnd b.cluster b.count) :=
    free_live inv'.start ok
  have hrel : Releasable s.heap size ↔ releasedEnd b.cluster b.count = b.cluster + b.count := by
    rcases malloc_cases inv.start size with ⟨hnone, -, -⟩ | ⟨c₀, hfits, hfit, hsome, -⟩
    · rw [hnone] at hb
      exact absurd hb (by simp)
    · rw [hsome] at hb
      cases hb
      exact releasable_iff hfits hfit
  have hcases := ok.count_cases
  have hlast := ok.last
  have hend := releasedEnd_le b.cluster b.count
  rw [hrel, hfree]
  constructor
  · intro hsame
    by_contra hshort
    have hge : b.cluster ≤ releasedEnd b.cluster b.count := by
      unfold releasedEnd
      split_ifs <;> omega
    -- the first byte that was not cleared was free before and is marked now
    have hin : releasedEnd b.cluster b.count ∈ b.clusters := Block.mem_clusters.mpr ⟨hge, by omega⟩
    obtain ⟨hzero, hmarked⟩ := (mallocBlock_reserves inv hb (ok.lt_page hin)).1 hin
    have := hsame _ (ok.lt_page hin)
    rw [Heap.release_memsmall, if_neg (by omega), hzero] at this
    exact hmarked this
  · intro hwhole c hc
    rw [Heap.release_memsmall, hwhole]
    by_cases hin : c ∈ b.clusters
    · rw [if_pos (Block.mem_clusters.mp hin)]
      exact ((mallocBlock_reserves inv hb hc).1 hin).1.symm
    · rw [if_neg (fun h => hin (Block.mem_clusters.mpr h))]
      exact (mallocBlock_reserves inv hb hc).2 hin

/-- `free` undoes `malloc` exactly under `Releasable`; and in runs whose successful calls of `malloc` all
    meet it, `free` of a live block clears exactly its clusters, and after freeing every live block, in
    any order, the table is the initial one and allocations go as they went at the start. -/
theorem free_undoes_malloc (s : State) :
    (Reachable s → ∀ size b, size + 0x200 < 2 ^ 32 → mallocBlock s.heap size = some b →
      ((∀ c < 0x4000, (free (malloc s.heap size).2 b.ptr).memsmall c = s.heap.memsmall c) ↔
        Releasable s.heap size)) ∧
    (∀ mem, TidyRun mem s →
      (∀ b ∈ s.live, ∀ c < 0x4000,
        (free s.heap b.ptr).memsmall c = if c ∈ b.clusters then 0 else s.heap.memsmall c) ∧
      (∀ order, order.Perm s.live →
        (∀ c < 0x4000, (s.freeAll order).heap.memsmall c = (State.initial mem).heap.memsmall c) ∧
        ∀ sizes, mallocs (s.freeAll order).heap sizes = mallocs (State.initial mem).heap sizes)) := by
  refine ⟨fun run size b noWrap hb => malloc_free_memsmall_iff (reachable_inv run) noWrap hb, ?_⟩
  intro mem run
  have tidy := tidyRun_tidy run
  refine ⟨fun b hb c _ => tidy.free_memsmall hb c, fun order all => ?_⟩
  obtain ⟨htidy, hempty⟩ := tidy.freeAll all
  have htable : ∀ c < 0x4000,
      (s.freeAll order).heap.memsmall c = (State.initial mem).heap.memsmall c := by
    intro c hc
    exact htidy.rest c hc (by simp [hempty])
  exact ⟨htable, SameTable.mallocs ⟨htidy.start, rfl, htable⟩⟩

/-- A block of six clusters of a fresh heap is given back whole; and so are, in either order, it and a block of one
    cluster before it. -/
theorem free_undoes_malloc_small :
    (∀ c < 0x4000, (free (malloc (State.initial fun _ => 0).heap 0x15000).2 0x02A04100).memsmall c =
      (State.initial fun _ => 0).heap.memsmall c) ∧
    (((State.initial fun _ => 0).malloc 16).malloc 0x15000).live =
      [⟨0x02A08100, 0x15000, 2, 6⟩, ⟨0x02A04100, 16, 1, 1⟩] ∧
    ∀ order, order.Perm (((State.initial fun _ => 0).malloc 16).malloc 0x15000).live → ∀ c < 0x4000,
      ((((State.initial fun _ => 0).malloc 16).malloc 0x15000).freeAll order).heap.memsmall c =
        (State.initial fun _ => 0).heap.memsmall c := by
  have hlong : Releasable (State.initial fun _ => 0).heap 0x15000 :=
    ⟨by decide, Or.inr ⟨1, by decide, by decide, by decide +kernel⟩⟩
  have hb : mallocBlock (State.initial fun _ => 0).heap 0x15000 = some ⟨0x02A04100, 0x15000, 1, 6⟩ := by
    decide +kernel
  have hsecond : Releasable ((State.initial fun _ => 0).malloc 16).heap 0x15000 :=
    ⟨by decide, Or.inr ⟨2, by decide, by decide, by decide +kernel⟩⟩
  have run : TidyRun (fun _ => 0) (((State.initial fun _ => 0).malloc 16).malloc 0x15000) :=
    (Relation.ReflTransGen.single
      (.malloc _ 16 (by decide) (Or.inr ⟨by decide, Or.inl (by decide)⟩))).tail
      (.malloc _ 0x15000 (by decide) (Or.inr hsecond))
  refine ⟨((free_undoes_malloc _).1 ⟨fun _ => 0, .refl⟩ 0x15000 _ (by decide) hb).mpr hlong, by decide +kernel, ?_⟩
  intro order all
  exact (((free_undoes_malloc _).2 _ run).2 order all).1

/-- 64K asked of a fresh heap take five clusters, and `free` leaves them marked. -/
theorem free_keeps_five_clusters :
    ¬ ∀ s, Reachable s → ∀ size b, size + 0x200 < 2 ^ 32 → mallocBlock s.heap size = some b →
      ∀ c < 0x4000, (free (malloc s.heap size).2 b.ptr).memsmall c = s.heap.memsmall c := by
  intro hall
  have hb : mallocBlock (State.initial fun _ => 0).heap 0x10000 =
      some ⟨0x02A04100, 0x10000, 1, 5⟩ := by decide
  have hone := hall _ ⟨fun _ => 0, .refl⟩ 0x10000 _ (by decide) hb 1 (by decide)
  exact absurd hone (by decide)

/-! ### Blocks inside the arena -/

/-- The condition under which `t_malloc` stays inside the arena: the request is refused, or some free run
    of its length ends at or before the last cluster. -/
def InArena (h : Heap) (size : Nat) : Prop :=
  0x500000 < size ∨ (∀ c, 1 ≤ c → c ≤ 0x3ff → ¬ FreeRun h c (clusterCount size)) ∨
    ∃ c, 1 ≤ c ∧ c + clusterCount size ≤ 0x400 ∧ FreeRun h c (clusterCount size)

/-- The first fit ends inside the table exactly when the condition holds. -/
theorem inArena_iff {h : Heap} {size c : Nat} (hfits : size ≤ 0x500000)
    (hfit : firstFit h (clusterCount size) = some c) :
    InArena h size ↔ c + clusterCount size ≤ 0x400 := by
  obtain ⟨hlo, hhi, hrun, hleast⟩ := firstFit_eq_some.mp hfit
  constructor
  · rintro (hgt | hnone | ⟨c', hlo', hend, hrun'⟩)
    · omega
    · exact absurd hrun (hnone c hlo hhi)
    · by_contra hcross
      exact hleast c' hlo' (by omega) hrun'
  · intro hend
    exact Or.inr (Or.inr ⟨c, hlo, hend, hrun⟩)

/-- The block that `t_malloc` returns lies in clusters `1..0x3ff` exactly under `InArena`. -/
theorem tMalloc_inside_iff {h : Heap} (start : h.memoryManagerStartAddress = memoryManagerStart)
    (size : Nat) :
    ((tMalloc h size).1 ≠ 0 → memoryManagerStart + 0x4000 ≤ (tMalloc h size).1 ∧
      (tMalloc h size).1 + clusterCount size * 0x4000 ≤ memoryManagerStart + 0x1000000) ↔
      InArena h size := by
  by_cases hfits : size ≤ 0x500000
  · rw [tMalloc_eq h hfits]
    cases hfit : firstFit h (clusterCount size) with
    | none =>
        have hnone : InArena h size := Or.inr (Or.inl (firstFit_eq_none.mp hfit))
        simp [hnone]
    | some c =>
        obtain ⟨hlo, hhi, -, -⟩ := firstFit_eq_some.mp hfit
        have hpos : memoryManagerStart + c * 0x4000 ≠ 0 := by simp only [memoryManagerStart]; omega
        simp only [clusterAddress_eq start hhi, ne_eq, hpos, not_false_eq_true, true_implies,
          inArena_iff hfits hfit]
        omega
  · have hgt : InArena h size := Or.inl (by omega)
    simp [tMalloc_of_gt h (show 0x500000 < size by omega), hgt]

/-- Runs in which every `malloc` meets `InArena`. -/
def ArenaRun (mem : Mem) (s : State) : Prop :=
  Relation.ReflTransGen (StepWhen fun h size => InArena h (paddedSize size)) (State.initial mem) s

/-- In such runs the invariant holds and every live block ends at or before the last cluster. -/
theorem arenaRun_inside {mem : Mem} {s : State} (run : ArenaRun mem s) :
    HeapInv s ∧ ∀ b ∈ s.live, b.cluster + b.count ≤ 0x400 := by
  induction run with
  | refl =>
      refine ⟨inv_initial mem, ?_⟩
      intro b hb
      simp [State.initial] at hb
  | @tail s _ _ step ih =>
      obtain ⟨inv, inside⟩ := ih
      refine ⟨inv_step step.step inv, ?_⟩
      cases step with
      | malloc size noWrap cond =>
          intro b hb
          rcases malloc_cases inv.start size with ⟨hnone, -, -⟩ | ⟨c, hfits, hfit, hsome, -⟩
          · simp only [State.malloc, hnone, Option.toList_none, List.nil_append] at hb
            exact inside b hb
          · simp only [State.malloc, hsome, Option.toList_some, List.singleton_append,
              List.mem_cons] at hb
            rcases hb with rfl | hold
            · exact (inArena_iff hfits hfit).mp cond
            · exact inside b hold
      | free b live =>
          intro b' hb'
          exact inside b' (List.mem_of_mem_erase hb')
      | store b live a v hin => exact inside

/-- A block returned by `t_malloc` lies inside the arena exactly under `InArena`; and in runs whose calls
    of `malloc` all meet it, every live block keeps to clusters `1..0x3ff`, below `0x03A00000`. -/
theorem tMalloc_in_arena (s : State) :
    (Reachable s → ∀ size,
      ((tMalloc s.heap size).1 ≠ 0 → memoryManagerStart + 0x4000 ≤ (tMalloc s.heap size).1 ∧
        (tMalloc s.heap size).1 + clusterCount size * 0x4000 ≤ memoryManagerStart + 0x1000000) ↔
        InArena s.heap size) ∧
    (∀ mem, ArenaRun mem s → ∀ b ∈ s.live,
      b.clusters ⊆ Finset.Icc 1 0x3ff ∧ b.ptr + b.size ≤ 0x03A00000) := by
  refine ⟨fun run size => tMalloc_inside_iff (reachable_inv run).start size, ?_⟩
  intro mem run b hb
  obtain ⟨inv, inside⟩ := arenaRun_inside run
  have ok := inv.block b hb
  have hfirst := ok.first
  have hend := inside b hb
  constructor
  · intro c hc
    obtain ⟨lo, hi⟩ := Block.mem_clusters.mp hc
    exact Finset.mem_Icc.mpr ⟨by omega, by omega⟩
  · have huser := ok.user_le
    simp only [memoryManagerStart] at huser
    omega

/-- The run of six clusters that follows a block of one cluster ends inside the arena. -/
theorem tMalloc_in_arena_first :
    (tMalloc ((State.initial fun _ => 0).malloc 16).heap 0x15000).1 = memoryManagerStart + 2 * 0x4000 ∧
    (tMalloc ((State.initial fun _ => 0).malloc 16).heap 0x15000).1 + 6 * 0x4000 ≤ 0x03A00000 ∧
    (((State.initial fun _ => 0).malloc 16).malloc 0x15000).live =
      [⟨0x02A08100, 0x15000, 2, 6⟩, ⟨0x02A04100, 16, 1, 1⟩] ∧
    Finset.Ico 2 8 ⊆ Finset.Icc 1 0x3ff ∧ 0x02A08100 + 0x15000 ≤ 0x03A00000 := by
  have hone : InArena (State.initial fun _ => 0).heap (paddedSize 16) :=
    Or.inr (Or.inr ⟨1, by decide, by decide, by decide +kernel⟩)
  have hsix : InArena ((State.initial fun _ => 0).malloc 16).heap 0x15000 :=
    Or.inr (Or.inr ⟨2, by decide, by decide, by decide +kernel⟩)
  have hpadded : InArena ((State.initial fun _ => 0).malloc 16).heap (paddedSize 0x15000) :=
    Or.inr (Or.inr ⟨2, by decide, by decide, by decide +kernel⟩)
  have run : ArenaRun (fun _ => 0) (((State.initial fun _ => 0).malloc 16).malloc 0x15000) :=
    (Relation.ReflTransGen.single (.malloc _ 16 (by decide) hone)).tail (.malloc _ 0x15000 (by decide) hpadded)
  have reached : Reachable ((State.initial fun _ => 0).malloc 16) :=
    ⟨fun _ => 0, Relation.ReflTransGen.single (.malloc _ 16 (by decide))⟩
  have hlive : (((State.initial fun _ => 0).malloc 16).malloc 0x15000).live =
      [⟨0x02A08100, 0x15000, 2, 6⟩, ⟨0x02A04100, 16, 1, 1⟩] := by decide +kernel
  have haddr : (tMalloc ((State.initial fun _ => 0).malloc 16).heap 0x15000).1 = memoryManagerStart + 2 * 0x4000 := by
    decide +kernel
  have hinside := ((tMalloc_in_arena _).1 reached 0x15000).mpr hsix
    (by rw [haddr]; exact Nat.ne_of_gt (by decide))
  obtain ⟨hclusters, hend⟩ := (tMalloc_in_arena _).2 _ run ⟨0x02A08100, 0x15000, 2, 6⟩
    (by rw [hlive]; exact List.mem_cons_self)
  exact ⟨haddr, hinside.2, hlive, hclusters, hend⟩

/-- Table bytes `1..e-1` are taken and all later ones are free. -/
structure Packed (s : State) (e : Nat) : Prop where
  reach : Reachable s
  taken : ∀ c, 1 ≤ c → c < e → s.heap.memsmall c ≠ 0
  free : ∀ c, e ≤ c → c < 0x4000 → s.heap.memsmall c = 0

/-- In a packed heap the first fit is the first free cluster. -/
theorem Packed.firstFit {s : State} {e k : Nat} (packed : Packed s e) (he : 1 ≤ e) (hlast : e ≤ 0x3ff)
    (hk : 0 < k) (hpage : e + k ≤ 0x4000) : firstFit s.heap k = some e := by
  refine firstFit_eq_some.mpr ⟨he, hlast, fun i hi => packed.free _ (by omega) (by omega), ?_⟩
  intro c hlo hlt hrun
  exact packed.taken c hlo hlt (hrun 0 hk)

theorem Packed.malloc {s : State} {e : Nat} (packed : Packed s e) (size : Nat) (he : 1 ≤ e)
    (hlast : e ≤ 0x3ff) (noWrap : size + 0x200 < 2 ^ 32) (hfits : paddedSize size ≤ 0x500000) :
    Packed (s.malloc size) (e + clusterCount (paddedSize size)) := by
  have hk := clusterCount_cases hfits
  have inv := reachable_inv packed.reach
  have hfirst := packed.firstFit (k := clusterCount (paddedSize size)) he hlast (by omega) (by omega)
  obtain ⟨mem, run⟩ := packed.reach
  rcases malloc_cases inv.start size with ⟨-, hno, -⟩ | ⟨c, -, hfit, -, hm⟩
  · rcases hno with hgt | hno
    · omega
    · rw [hfirst] at hno
      exact absurd hno (by simp)
  · have hc : c = e := by
      rw [hfirst] at hfit
      exact (Option.some.inj hfit).symm
    subst hc
    have htable : ∀ i < 0x4000, (s.malloc size).heap.memsmall i =
        (s.heap.claim c (clusterCount (paddedSize size))).memsmall i := by
      intro i hi
      change (MemoryManager.malloc s.heap size).2.memsmall i = _
      rw [hm]
      exact writeHeader_claim_memsmall inv.start he hlast hi
    refine ⟨⟨mem, run.tail (.malloc s size noWrap)⟩, ?_, ?_⟩
    · intro i hlo hlt
      rw [htable i (by omega), Heap.claim_memsmall]
      split_ifs with hin
      · exact mark_ne_zero (by omega)
      · exact packed.taken i hlo (by omega)
    · intro i hlo hlt
      rw [htable i hlt, Heap.claim_memsmall, if_neg (by omega)]
      exact packed.free i (by omega) hlt

/-- Three blocks of 321 clusters fill clusters `1..963`. -/
theorem packed_three_blocks :
    Packed ((((State.initial fun _ => 0).malloc 0x4FFE00).malloc 0x4FFE00).malloc 0x4FFE00) 964 := by
  have h0 : Packed (State.initial fun _ => 0) 1 := by
    refine ⟨⟨fun _ => 0, .refl⟩, fun c hlo hlt => by omega, fun c hlo hlt => ?_⟩
    rw [initial_memsmall _ hlt, if_neg (by omega)]
  have hcount : clusterCount (paddedSize 0x4FFE00) = 321 := by decide
  have h1 := h0.malloc 0x4FFE00 (by omega) (by omega) (by decide) (by decide)
  have h2 := h1.malloc 0x4FFE00 (by omega) (by omega) (by decide) (by decide)
  have h3 := h2.malloc 0x4FFE00 (by omega) (by omega) (by decide) (by decide)
  simpa [hcount] using h3

/-- After three requests of 5 MB the fourth one is placed at cluster 964 and ends at cluster 1285, where
    the loaded BIOS lies. -/
theorem tMalloc_leaves_arena :
    ¬ ∀ s, Reachable s → ∀ size, (tMalloc s.heap size).1 ≠ 0 →
      memoryManagerStart + 0x4000 ≤ (tMalloc s.heap size).1 ∧
        (tMalloc s.heap size).1 + clusterCount size * 0x4000 ≤ memoryManagerStart + 0x1000000 := by
  intro hall
  have packed := packed_three_blocks
  have hcount : clusterCount 0x500000 = 321 := by decide
  have inv := reachable_inv packed.reach
  have hfit := packed.firstFit (k := 321) (by omega) (by omega) (by omega) (by omega)
  have hinside := (tMalloc_inside_iff inv.start 0x500000).mp (hall _ packed.reach 0x500000)
  rw [inArena_iff (le_refl _) (by rw [hcount]; exact hfit), hcount] at hinside
  omega

end Cromwell.MemoryManager
