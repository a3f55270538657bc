/-
Module: Cromwell.Iso.Leaks
Layer: Proofs
Purpose: The heap after `BootIso9660GetFile`. Everything that is allocated is given back when the volume descriptor
  cannot be read, and when nothing in the root directory leads on and `free` can give its buffer back whole; otherwise
  blocks of the call stay, or clusters of them.
Imports: Cromwell.Iso.GetFile
Trusted boundary: LeavesHeap, Unfound, QuietCall
Main exports: bootIso9660GetFile_leaves_heap_iff
-/
import Cromwell.Iso.GetFile

namespace Cromwell.Iso

open ByteMemory
open Cromwell.MemoryManager (Block State ClientHeap HeapInv Grown Tidy Releasable releasedEnd firstFit)

variable {cd : CdRom} {szcPath : List UInt8}

/-- The heap has the same live blocks and the same table. -/
def SameHeap (before after : ClientHeap) : Prop :=
  after.live = before.live ∧ ∀ c < 0x4000, after.heap.memsmall c = before.heap.memsmall c

/-- The call comes back, and the heap is that from before. -/
def LeavesHeap (cd : CdRom) (szcPath : List UInt8) (pbaFile dwFileLengthMax : Nat) (s : CdState) : Prop :=
  ∃ rounds value s',
    bootIso9660GetFile cd rounds szcPath pbaFile dwFileLengthMax s = some (.ok (value, s')) ∧
    SameHeap s.heap s'.heap

/-- There is no volume descriptor, or no record in the root directory is taken for the file or for a directory on its
    path, and the buffer of the root directory is a block that can be given back whole. -/
def Unfound (cd : CdRom) (szcPath : List UInt8) (s : CdState) : Prop :=
  ∀ bytes, cd.disc 16 = some bytes →
    (∀ p, openDirectory cd (rootRecord bytes) [] (started s) = .ok p → decision szcPath p.1 = .nothing) ∧
    Releasable (started s).heap.heap (rootRecord bytes).size

/-! ### The blocks that are alive -/

theorem Enters.live {p q : IsoDir × CdState} (h : Enters cd szcPath p q) :
    q.2.heap.live.length = p.2.heap.live.length + 2 := by
  obtain ⟨dir, newfilename, -, hopen⟩ := h
  rw [(opened_of_eq hopen).live]
  rfl

theorem live_le_of_walkTo {p q : IsoDir × CdState} (hwalk : WalkTo cd szcPath p q) :
    p.2.heap.live.length ≤ q.2.heap.live.length := by
  induction hwalk with
  | refl => exact Nat.le_refl _
  | tail _ henters ih =>
      rw [henters.live]
      exact Nat.le_trans ih (Nat.le_add_right _ 2)

/-- When something in the root directory leads on, the blocks that are there when it is open are not given back. -/
theorem Final.live {dirFound : IsoDirectoryRecord} {p q : IsoDir × CdState} {value : Nat}
    {found : IsoDirectoryRecord} {s' : CdState} (h : Final cd szcPath dirFound q (.ok (value, found, s')))
    (hwalk : WalkTo cd szcPath p q) (hdecision : decision szcPath p.1 ≠ .nothing) :
    p.2.heap.live.length ≤ s'.heap.live.length := by
  cases h with
  | found h => exact live_le_of_walkTo hwalk
  | @nothing d s h =>
      rcases hwalk.cases_tail with heq | ⟨r, hr, henters⟩
      · cases heq
        exact absurd h hdecision
      · have hle := live_le_of_walkTo hr
        have hlive := henters.live
        have hfirst := s.heap.length_le_free d.bufferBlock
        have hsecond := (s.heap.free d.bufferBlock).length_le_free d.newfilenameBlock
        dsimp only at hlive ⊢
        omega

/-- `BootIso9660GetFile` gives back two blocks at the most, those of the descriptor and of the record. -/
theorem live_of_delivered {pbaFile dwFileLengthMax : Nat} {pvd dir : Block} {s s' : CdState} {value : Nat}
    {result : Int} {found : IsoDirectoryRecord}
    (h : delivered cd pbaFile dwFileLengthMax pvd dir (.ok (value, found, s)) = .ok (result, s')) :
    s.heap.live.length ≤ s'.heap.live.length + 2 := by
  rw [delivered] at h
  split at h
  case isTrue hpos =>
    cases h
    exact Nat.le_add_right _ 2
  case isFalse hpos =>
    cases h
    have hfirst := s.heap.length_le_free pvd
    have hsecond := (s.heap.free pvd).length_le_free dir
    rw [released]
    dsimp only
    omega

theorem Descriptors.live {s : CdState} {pvd dir : Block} (blocks : Descriptors s pvd dir) :
    (started s).heap.live = dir :: pvd :: s.heap.live := by
  rw [ClientHeap.malloc_live blocks.dir, ClientHeap.malloc_live blocks.pvd]

/-! ### The table -/

/-- The heap of a call when its two blocks are allocated, with the blocks of the call only. -/
def callHeap (s : CdState) : State :=
  ((State.mk s.heap.heap []).malloc isoBlocksize).malloc IsoDirectoryRecord.sizeof

variable {s : CdState} {pvd dir : Block}

theorem Descriptors.grown (table : s.heap.heap.memsmall 0 ≠ 0) : Grown s.heap.heap.memsmall (callHeap s) :=
  ((Tidy.of_table s.heap.start table).toGrown.malloc (by decide)).malloc (by decide)

theorem Descriptors.callHeap_live (blocks : Descriptors s pvd dir) : (callHeap s).live = [dir, pvd] := by
  have hpvd : ((State.mk s.heap.heap []).malloc isoBlocksize).live = [pvd] :=
    State.malloc_live (ClientHeap.malloc_block blocks.pvd)
  have hdir : (callHeap s).live = dir :: ((State.mk s.heap.heap []).malloc isoBlocksize).live :=
    State.malloc_live (ClientHeap.malloc_block blocks.dir)
  rw [hdir, hpvd]

/-- The two blocks are given back whole. -/
theorem Descriptors.released (table : s.heap.heap.memsmall 0 ≠ 0) (blocks : Descriptors s pvd dir) :
    SameHeap s.heap ((started s).heap.free pvd |>.free dir) := by
  have grown := Descriptors.grown table
  have hlive := blocks.callHeap_live
  have hnodup : (callHeap s).live.Nodup := grown.toHeapInv.nodup
  rw [hlive] at hnodup
  have hne : ¬ dir = pvd := by
    intro h
    simp [h] at hnodup
  constructor
  · change ((started s).heap.live.erase pvd).erase dir = s.heap.live
    rw [blocks.live, List.erase_cons_tail (by simpa using hne), List.erase_cons_head, List.erase_cons_head]
  · have hdir : ∀ b ∈ [dir], releasedEnd b.cluster b.count = b.cluster + b.count := by
      intro b hb
      rw [List.mem_singleton.mp hb]
      exact ClientHeap.whole_of_small blocks.dir (by decide)
    have hperm : [pvd, dir].Perm (callHeap s).live := by
      rw [hlive]
      exact List.Perm.swap _ _ _
    exact (grown.freeAll_restores_iff hperm hdir).mpr
      (ClientHeap.whole_of_small blocks.pvd (by decide))

/-- When the directory and the two blocks are given back, the heap is that from before exactly when the buffer of the
    directory can be given back whole. -/
theorem Opened.released_iff (table : s.heap.heap.memsmall 0 ≠ 0) (blocks : Descriptors s pvd dir)
    {rootd : IsoDirectoryRecord} {d : IsoDir} {s' : CdState} (hopened : Opened cd rootd [] (started s) d s') :
    SameHeap s.heap ((((s'.heap.free d.bufferBlock).free d.newfilenameBlock).free pvd).free dir) ↔
      Releasable (started s).heap.heap rootd.size := by
  obtain ⟨heap, hbuffer, hname⟩ := hopened.heap
  obtain ⟨hbufferBlock, hwrap, -, rfl⟩ := ClientHeap.malloc_eq_some_iff.mp hbuffer
  obtain ⟨hnameBlock, -, -, hheap⟩ := ClientHeap.malloc_eq_some_iff.mp hname
  have grown : Grown s.heap.heap.memsmall (((callHeap s).malloc rootd.size).malloc 1024) :=
    ((Descriptors.grown table).malloc hwrap).malloc (by decide)
  have hlive : (((callHeap s).malloc rootd.size).malloc 1024).live =
      [d.newfilenameBlock, d.bufferBlock, dir, pvd] := by
    have hfirst : ((callHeap s).malloc rootd.size).live = d.bufferBlock :: (callHeap s).live :=
      State.malloc_live hbufferBlock
    have hsecond : (((callHeap s).malloc rootd.size).malloc 1024).live =
        d.newfilenameBlock :: ((callHeap s).malloc rootd.size).live := State.malloc_live hnameBlock
    rw [hsecond, hfirst, blocks.callHeap_live]
  have hnodup : (((callHeap s).malloc rootd.size).malloc 1024).live.Nodup := grown.toHeapInv.nodup
  rw [hlive] at hnodup
  have hperm : [d.bufferBlock, d.newfilenameBlock, pvd, dir].Perm (((callHeap s).malloc rootd.size).malloc 1024).live := by
    rw [hlive]
    exact (List.Perm.swap _ _ _).trans (((List.Perm.swap _ _ _).cons _).cons _)
  have hothers : ∀ b ∈ [d.newfilenameBlock, pvd, dir], releasedEnd b.cluster b.count = b.cluster + b.count := by
    intro b hb
    simp only [List.mem_cons, List.not_mem_nil, or_false] at hb
    rcases hb with rfl | rfl | rfl
    · exact ClientHeap.whole_of_small hname (by decide)
    · exact ClientHeap.whole_of_small blocks.pvd (by decide)
    · exact ClientHeap.whole_of_small blocks.dir (by decide)
  rw [ClientHeap.releasable_iff_whole hbuffer, ← grown.freeAll_restores_iff hperm hothers]
  have hblocks : (((((s'.heap.free d.bufferBlock).free d.newfilenameBlock).free pvd).free dir)).live = s.heap.live := by
    change (((s'.heap.live.erase d.bufferBlock).erase d.newfilenameBlock).erase pvd).erase dir = s.heap.live
    simp only [List.nodup_cons, List.mem_cons, not_or] at hnodup
    rw [hopened.live, blocks.live]
    simp [hnodup]
  constructor
  · intro h
    rw [hheap] at h
    exact h.2
  · intro h
    refine ⟨hblocks, ?_⟩
    rw [hheap]
    exact h

/-! ### One call and many -/

variable {pbaFile dwFileLengthMax : Nat}

/-- A call that comes back without a file has given back everything but what `free` leaves. -/
theorem readDir_nothing {bytes : Nat → UInt8} {p : IsoDir × CdState} {found : DirResult}
    (hopen : openDirectory cd (rootRecord bytes) [] (started s) = .ok p) (hdecision : decision szcPath p.1 = .nothing)
    (hfound : ∃ rounds, readDir cd rounds (rootRecord bytes) szcPath [] (fun _ => 0) (started s) = some found) :
    found = .ok (0, fun _ => 0, { decided szcPath p.1 p.2 with
      heap := (p.2.heap.free p.1.bufferBlock).free p.1.newfilenameBlock }) := by
  have hstays : ∀ dir newfilename, decision szcPath p.1 ≠ .enter dir newfilename := by
    intro dir newfilename h
    rw [hdecision] at h
    cases h
  rcases readDir_iff.mp hfound with ⟨hfull, -⟩ | ⟨p', q, hopen', hwalk, hfinal⟩
  · rw [hopen] at hfull
    cases hfull
  · have hp := opened_unique hopen' hopen
    subst hp
    have hq := eq_of_walkTo hstays hwalk
    subst hq
    cases hfinal with
    | nothing h => rfl
    | overlong h | found h | noBlock h =>
        rw [hdecision] at h
        cases h

/-- After a call that finds nothing the heap is that from before. -/
theorem Unfound.sameHeap {rounds : Nat} {s' : CdState} {value : Int} (h : Unfound cd szcPath s)
    (table : s.heap.heap.memsmall 0 ≠ 0)
    (hrun : bootIso9660GetFile cd rounds szcPath pbaFile dwFileLengthMax s = some (.ok (value, s'))) :
    SameHeap s.heap s'.heap := by
  rcases bootIso9660GetFile_blocks cd szcPath pbaFile dwFileLengthMax s with hnone | ⟨pvd, dir, blocks⟩
  · rw [hnone] at hrun
    cases hrun
  · rcases (bootIso9660GetFile_ok_iff blocks).mp ⟨rounds, hrun⟩ with
      ⟨-, hresult⟩ | ⟨bytes, found, hbytes, hfound, hresult⟩
    · cases hresult
      exact blocks.released table
    · obtain ⟨hnothing, hwhole⟩ := h bytes hbytes
      rcases openDirectory_cases cd (rootRecord bytes) [] (started s) with hfull | ⟨d, t, hopen, hopened⟩
      · rcases readDir_iff.mp hfound with ⟨-, rfl⟩ | ⟨p, q, hopen, -⟩
        · cases hresult
        · rw [hfull] at hopen
          cases hopen
      · obtain rfl := readDir_nothing hopen (hnothing _ hopen) hfound
        rw [delivered_not_found _ _ _ _ _ (Nat.lt_irrefl 0)] at hresult
        cases hresult
        exact (hopened.released_iff table blocks).mpr hwhole

/-- Such a call comes back. -/
theorem Unfound.leavesHeap (h : Unfound cd szcPath s) (table : s.heap.heap.memsmall 0 ≠ 0)
    (found : CallBlocksFound cd szcPath s) : LeavesHeap cd szcPath pbaFile dwFileLengthMax s := by
  obtain ⟨pvd, dir, blocks⟩ := found.descriptors
  cases hread : cd.disc 16 with
  | none =>
      have hrun := @bootIso9660GetFile_noDescriptor cd szcPath s pvd dir blocks hread 0 pbaFile dwFileLengthMax
      exact ⟨0, _, _, hrun, h.sameHeap table hrun⟩
  | some bytes =>
      obtain ⟨p, q, result, hopen, hopened, hwalk, hfinal, -⟩ :=
        (found.directories bytes hread).opens fun _ => 0
      have hfound := readDir_iff.mpr (Or.inr ⟨p, q, hopen, hwalk, hfinal⟩)
      obtain rfl := readDir_nothing hopen ((h bytes hread).1 p hopen) hfound
      obtain ⟨rounds, hrun⟩ := (bootIso9660GetFile_iff blocks hread).mpr ⟨_, hfound, rfl⟩
      rw [delivered_not_found pbaFile dwFileLengthMax _ _ _ (Nat.lt_irrefl 0)] at hrun
      exact ⟨rounds, _, _, hrun, h.sameHeap table hrun⟩

/-- A call that leaves the heap as it was was of this kind. -/
theorem LeavesHeap.unfound (h : LeavesHeap cd szcPath pbaFile dwFileLengthMax s)
    (table : s.heap.heap.memsmall 0 ≠ 0) (blocks : Descriptors s pvd dir) : Unfound cd szcPath s := by
  obtain ⟨rounds, value, s', hrun, hsame⟩ := h
  intro bytes hbytes
  rcases (bootIso9660GetFile_ok_iff blocks).mp ⟨rounds, hrun⟩ with ⟨hnone, -⟩ | ⟨bytes', found, hbytes', hfound, hresult⟩
  · rw [hbytes] at hnone
    cases hnone
  · rw [hbytes] at hbytes'
    cases hbytes'
    rcases readDir_iff.mp hfound with ⟨-, rfl⟩ | ⟨p, q, hopen, hwalk, hfinal⟩
    · cases hresult
    · have hopened := opened_of_eq hopen
      have hdecision : decision szcPath p.1 = .nothing := by
        by_contra hdecision
        rcases found with fault | ⟨offset, dirFound, s''⟩
        · cases hresult
        · -- More blocks are left than there were.
          have hstays := hfinal.live hwalk hdecision
          have hback := live_of_delivered hresult.symm
          rw [hopened.live, blocks.live, List.length_cons, List.length_cons, List.length_cons, List.length_cons] at hstays
          rw [hsame.1] at hback
          omega
      obtain rfl := readDir_nothing hopen hdecision hfound
      rw [delivered_not_found _ _ _ _ _ (Nat.lt_irrefl 0)] at hresult
      cases hresult
      refine ⟨fun p' hopen' => ?_, (hopened.released_iff table blocks).mp hsame⟩
      rw [opened_unique hopen' hopen]
      exact hdecision

/-- A call on a disc, for a path and into a buffer, that finds nothing. -/
def QuietCall (s s' : CdState) : Prop :=
  ∃ cd szcPath pbaFile dwFileLengthMax rounds value, Unfound cd szcPath s ∧
    bootIso9660GetFile cd rounds szcPath pbaFile dwFileLengthMax s = some (.ok (value, s'))

/-- `BootIso9660GetFile`, as far as `malloc` has blocks for its descriptors and directories, leaves the heap as it was
    exactly when it does not read the volume descriptor, or finds nothing in a root directory whose buffer can be given
    back whole; and so do calls of this kind in any number. -/
theorem bootIso9660GetFile_leaves_heap_iff (s : CdState) (table : s.heap.heap.memsmall 0 ≠ 0) :
    (∀ cd szcPath, CallBlocksFound cd szcPath s → ∀ pbaFile dwFileLengthMax,
      (LeavesHeap cd szcPath pbaFile dwFileLengthMax s ↔ Unfound cd szcPath s)) ∧
    ∀ s', Relation.ReflTransGen QuietCall s s' → SameHeap s.heap s'.heap := by
  constructor
  · intro cd szcPath found pbaFile dwFileLengthMax
    obtain ⟨pvd, dir, blocks⟩ := found.descriptors
    exact ⟨fun h => h.unfound table blocks, fun h => h.leavesHeap table found⟩
  · intro s' hcalls
    induction hcalls with
    | refl => exact ⟨rfl, fun _ _ => rfl⟩
    | @tail t t' _ hcall ih =>
        obtain ⟨cd, szcPath, pbaFile, dwFileLengthMax, rounds, value, hnothing, hrun⟩ := hcall
        have hzero : t.heap.heap.memsmall 0 ≠ 0 := by
          rw [ih.2 0 (by decide)]
          exact table
        obtain ⟨hlive, htable⟩ := hnothing.sameHeap hzero hrun
        exact ⟨hlive.trans ih.1, fun c hc => (htable c hc).trans (ih.2 c hc)⟩

/-- `/b` -/
def otherPath : List UInt8 := [0x2f, 0x62]

theorem smallRoot_other : decision otherPath smallRoot = .nothing := by
  rfl

theorem smallDisc_unfound (file : Option (Nat → UInt8)) : Unfound (smallDisc file) otherPath freshState := by
  intro bytes hbytes
  have hvolume := Option.some.inj (show some volumeDescriptor = some bytes from hbytes)
  subst hvolume
  refine ⟨fun p hopen => ?_, by decide +kernel, Or.inl (by decide +kernel)⟩
  rw [opened_unique hopen (smallRoot_opened file)]
  exact smallRoot_other

/-- A path is looked for once, and the heap is as it was. -/
theorem bootIso9660GetFile_leaves_heap_iff_small :
    LeavesHeap (smallDisc none) otherPath 0x900000 0x800 freshState := by
  have hstays : ∀ dir newfilename, decision otherPath smallRoot ≠ .enter dir newfilename := by
    intro dir newfilename h
    rw [smallRoot_other] at h
    cases h
  have found : CallBlocksFound (smallDisc none) otherPath freshState :=
    CallBlocksFound.of_root rfl (smallRoot_opened none) hstays
  exact ((bootIso9660GetFile_leaves_heap_iff freshState (by decide +kernel)).1 _ _ found _ _).mpr
    (smallDisc_unfound none)

/-- A file of one byte is found in the root directory, and blocks stay behind. -/
theorem found_file_leaves_blocks : ¬ LeavesHeap (smallDisc (some fun _ => 0)) smallPath 0x900000 0x800 freshState := by
  intro h
  obtain ⟨hnothing, -⟩ := h.unfound (by decide +kernel) smallBlocks volumeDescriptor rfl
  have hdecision : decision smallPath smallRoot = .nothing := hnothing (_, _) (smallRoot_opened _)
  rw [smallRoot_decision] at hdecision
  cases hdecision

end Cromwell.Iso
