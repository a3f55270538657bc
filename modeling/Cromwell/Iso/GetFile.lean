/-
Module: Cromwell.Iso.GetFile
Layer: Proofs
Purpose: The results of `BootIso9660GetFile`, and what it tells its caller of sectors that could not be read. Only the
  read of the volume descriptor is checked.
Imports: Cromwell.Iso.Bounds
Trusted boundary: CallBlocksFound, ReportsErrors, SectorsRead, FileRead, ReadBack
Main exports: callBlocksFound_iff, bootIso9660GetFile_iff, bootIso9660GetFile_ok_iff,
  bootIso9660GetFile_reports_errors_iff
-/
import Cromwell.Iso.Bounds

namespace Cromwell.Iso

open ByteMemory
open Cromwell.MemoryManager (Block ClientHeap malloc memoryManagerStart free_below)

variable {cd : CdRom} {szcPath : List UInt8}

/-! ### The results of the call -/

/-- The state in which the root directory is opened. -/
def started (s : CdState) : CdState :=
  { s with
    heap := (s.heap.afterMalloc isoBlocksize).afterMalloc IsoDirectoryRecord.sizeof
    issued := 16 :: s.issued }

/-- The blocks of the volume descriptor and of the record of the file. -/
structure Descriptors (s : CdState) (pvd dir : Block) : Prop where
  pvd : s.heap.malloc isoBlocksize = some (pvd, s.heap.afterMalloc isoBlocksize)
  dir : (s.heap.afterMalloc isoBlocksize).malloc IsoDirectoryRecord.sizeof = some (dir, (started s).heap)

/-- The state when they are given back. -/
def released (pvd dir : Block) (s : CdState) : CdState := { s with heap := (s.heap.free pvd).free dir }

/-- The record of the root directory in the volume descriptor. -/
def rootRecord (bytes : Nat → UInt8) : IsoDirectoryRecord := fun i => bytes (rootDirectoryRecord + i)

/-- What `BootIso9660GetFile` makes of the result of `read_dir`. -/
def delivered (cd : CdRom) (pbaFile dwFileLengthMax : Nat) (pvd dir : Block) : DirResult → GetFileResult
  | .error fault => .error fault
  | .ok (offset, dirFound, s) =>
      if 0 < offset then
        .ok (toInt (readFile cd.disc dirFound pbaFile dwFileLengthMax s.heap.heap).bytesRead,
          { s with
            heap := s.heap.withMem (readFile cd.disc dirFound pbaFile dwFileLengthMax s.heap.heap).heap.mem
            issued := (readFile cd.disc dirFound pbaFile dwFileLengthMax s.heap.heap).sectors ++ s.issued })
      else .ok (-1, released pvd dir s)

variable {s : CdState} {pvd dir : Block} {pbaFile dwFileLengthMax : Nat}

/-- The call stops at once, or it has its two blocks. -/
theorem bootIso9660GetFile_blocks (cd : CdRom) (szcPath : List UInt8) (pbaFile dwFileLengthMax : Nat) (s : CdState) :
    (∀ rounds, bootIso9660GetFile cd rounds szcPath pbaFile dwFileLengthMax s = some (.error .noBlock)) ∨
      ∃ pvd dir, Descriptors s pvd dir := by
  cases hpvd : s.heap.malloc isoBlocksize with
  | none =>
      refine Or.inl fun rounds => ?_
      rw [bootIso9660GetFile, hpvd]
  | some parts =>
      obtain ⟨pvd, heap⟩ := parts
      obtain ⟨-, -, -, rfl⟩ := ClientHeap.malloc_eq_some_iff.mp hpvd
      cases hdir : (s.heap.afterMalloc isoBlocksize).malloc IsoDirectoryRecord.sizeof with
      | none =>
          refine Or.inl fun rounds => ?_
          rw [bootIso9660GetFile, hpvd]
          dsimp only
          rw [hdir]
      | some parts =>
          obtain ⟨dir, heap⟩ := parts
          obtain ⟨-, -, -, rfl⟩ := ClientHeap.malloc_eq_some_iff.mp hdir
          exact Or.inr ⟨pvd, dir, hpvd, hdir⟩

theorem bootIso9660GetFile_noDescriptor (blocks : Descriptors s pvd dir) (hread : cd.disc 16 = none)
    (rounds pbaFile dwFileLengthMax : Nat) :
    bootIso9660GetFile cd rounds szcPath pbaFile dwFileLengthMax s = some (.ok (-1, released pvd dir (started s))) := by
  rw [bootIso9660GetFile, blocks.pvd]
  dsimp only
  rw [blocks.dir]
  dsimp only
  rw [hread]
  rfl

/-- The call makes its result of that of `read_dir`. -/
theorem bootIso9660GetFile_eq {bytes : Nat → UInt8} (blocks : Descriptors s pvd dir) (hread : cd.disc 16 = some bytes)
    (rounds pbaFile dwFileLengthMax : Nat) :
    bootIso9660GetFile cd rounds szcPath pbaFile dwFileLengthMax s =
      (readDir cd rounds (rootRecord bytes) szcPath [] (fun _ => 0) (started s)).map
        (delivered cd pbaFile dwFileLengthMax pvd dir) := by
  rw [bootIso9660GetFile, blocks.pvd]
  dsimp only
  rw [blocks.dir]
  dsimp only
  rw [hread]
  dsimp only
  have hroot : rootRecord bytes = fun i => bytes (rootDirectoryRecord + i) := rfl
  have hstart : started s = { s with heap := (started s).heap, issued := 16 :: s.issued } := rfl
  rw [hroot, ← hstart]
  cases readDir cd rounds (fun i => bytes (rootDirectoryRecord + i)) szcPath [] (fun _ => 0) (started s) with
  | none => rfl
  | some found =>
      rcases found with fault | ⟨offset, dirFound, s'⟩
      · rfl
      · dsimp only [Option.map_some, delivered]
        by_cases hoffset : 0 < offset
        · rw [if_pos hoffset, if_pos hoffset]
        · rw [if_neg hoffset, if_neg hoffset]
          rfl

theorem bootIso9660GetFile_iff {bytes : Nat → UInt8} (blocks : Descriptors s pvd dir)
    (hread : cd.disc 16 = some bytes) {result : GetFileResult} :
    (∃ rounds, bootIso9660GetFile cd rounds szcPath pbaFile dwFileLengthMax s = some result) ↔
      ∃ found, (∃ rounds, readDir cd rounds (rootRecord bytes) szcPath [] (fun _ => 0) (started s) = some found) ∧
        result = delivered cd pbaFile dwFileLengthMax pvd dir found := by
  simp only [bootIso9660GetFile_eq blocks hread, Option.map_eq_some_iff]
  constructor
  · rintro ⟨rounds, found, hfound, rfl⟩
    exact ⟨found, ⟨rounds, hfound⟩, rfl⟩
  · rintro ⟨found, ⟨rounds, hfound⟩, rfl⟩
    exact ⟨rounds, found, hfound, rfl⟩

/-- The call comes back with a value: it has read the volume descriptor, or not, and `read_dir` has come back. -/
theorem bootIso9660GetFile_ok_iff (blocks : Descriptors s pvd dir) {result : Int × CdState} :
    (∃ rounds, bootIso9660GetFile cd rounds szcPath pbaFile dwFileLengthMax s = some (.ok result)) ↔
      cd.disc 16 = none ∧ result = (-1, released pvd dir (started s)) ∨
        ∃ bytes found, cd.disc 16 = some bytes ∧
          (∃ rounds, readDir cd rounds (rootRecord bytes) szcPath [] (fun _ => 0) (started s) = some found) ∧
          .ok result = delivered cd pbaFile dwFileLengthMax pvd dir found := by
  cases hread : cd.disc 16 with
  | none => simp [bootIso9660GetFile_noDescriptor blocks hread, eq_comm]
  | some bytes =>
      rw [bootIso9660GetFile_iff blocks hread]
      simp

/-- `malloc` finds the blocks of the volume descriptor and of the record, and those of the directories. The block of
    `read_file` is not one of them. -/
structure CallBlocksFound (cd : CdRom) (szcPath : List UInt8) (s : CdState) : Prop where
  descriptors : ∃ pvd dir, Descriptors s pvd dir
  directories : ∀ bytes, cd.disc 16 = some bytes → BlocksFound cd (rootRecord bytes) szcPath [] (started s)

/-- They are found exactly when no run comes to a call of `malloc` that has none. -/
theorem callBlocksFound_iff (pbaFile dwFileLengthMax : Nat) :
    CallBlocksFound cd szcPath s ↔
      ∀ rounds, bootIso9660GetFile cd rounds szcPath pbaFile dwFileLengthMax s ≠ some (.error .noBlock) := by
  constructor
  · intro found rounds hrun
    obtain ⟨pvd, dir, blocks⟩ := found.descriptors
    cases hread : cd.disc 16 with
    | none =>
        rw [bootIso9660GetFile_noDescriptor blocks hread] at hrun
        cases hrun
    | some bytes =>
        obtain ⟨result, ⟨rounds', hfound⟩, hresult⟩ := (bootIso9660GetFile_iff blocks hread).mp ⟨rounds, hrun⟩
        rcases result with fault | ⟨offset, dirFound, s'⟩
        · cases hresult
          exact (blocksFound_iff _).mp (found.directories bytes hread) rounds' hfound
        · rw [delivered] at hresult
          split at hresult
          all_goals cases hresult
  · intro hruns
    rcases bootIso9660GetFile_blocks cd szcPath pbaFile dwFileLengthMax s with hnone | ⟨pvd, dir, blocks⟩
    · exact absurd (hnone 0) (hruns 0)
    · refine ⟨⟨pvd, dir, blocks⟩, fun bytes hread => (blocksFound_iff fun _ => 0).mpr ?_⟩
      intro rounds hrun
      apply hruns rounds
      rw [bootIso9660GetFile_eq blocks hread, hrun]
      rfl

/-! ### Sectors that cannot be read -/

/-- So many sectors can be read. -/
def SectorsRead (disc : Disc) (sector blocks : Nat) : Prop := ∀ i < blocks, (disc (u32 (sector + i))).isSome

/-- The sectors that are asked for on the walk. -/
theorem Enters.issued {p q : IsoDir × CdState} (h : Enters cd szcPath p q) :
    ∃ dir newfilename, decision szcPath p.1 = .enter dir newfilename ∧
      q.2.issued = sectorsFrom dir.extent (dir.size / isoBlocksize) ++ p.2.issued := by
  obtain ⟨dir, newfilename, hdecision, hopen⟩ := h
  exact ⟨dir, newfilename, hdecision, (opened_of_eq hopen).issued⟩

/-- The record that `read_dir` hands to `read_file`. -/
def foundRecord (dir : IsoDirectoryRecord) : IsoDirectoryRecord := Mem.write (fun _ => 0) 0 IsoDirectoryRecord.sizeof dir

theorem foundRecord_eq (dir : IsoDirectoryRecord) {i : Nat} (h : i < IsoDirectoryRecord.sizeof) :
    foundRecord dir i = dir i := by
  have hwrite := @Mem.write_of_mem (fun _ => 0) 0 IsoDirectoryRecord.sizeof i dir h
  rw [Nat.zero_add] at hwrite
  exact hwrite

theorem fileReadSize_lt (dir : IsoDirectoryRecord) (maxBytesToRead : Nat) (memory : Mem) :
    fileReadSize dir maxBytesToRead memory < 2 ^ 32 := by
  rw [fileReadSize]
  split
  · exact Mem.loadWord_lt _ _
  · exact Mem.loadWord_lt _ _

theorem opened_unique {dirRead : IsoDirectoryRecord} {filename : List UInt8} {s : CdState} {p p' : IsoDir × CdState}
    (h : openDirectory cd dirRead filename s = .ok p) (h' : openDirectory cd dirRead filename s = .ok p') : p = p' :=
  Except.ok.inj (h.symm.trans h')

/-- The walk has one last directory. -/
theorem Final.unique {dirFound : IsoDirectoryRecord} {p q q' : IsoDir × CdState} {result result' : DirResult}
    (h : Final cd szcPath dirFound q result) (h' : Final cd szcPath dirFound q' result') (hq : WalkTo cd szcPath p q)
    (hq' : WalkTo cd szcPath p q') : q' = q := by
  rcases (h.walkTo hq hq').cases_head with heq | ⟨next, henters, -⟩
  · exact heq
  · exact absurd henters h'.not_enters

theorem delivered_not_found {value : Nat} {found : IsoDirectoryRecord} (pbaFile dwFileLengthMax : Nat)
    (pvd dir : Block) (s : CdState) (h : ¬ 0 < value) :
    delivered cd pbaFile dwFileLengthMax pvd dir (.ok (value, found, s)) = .ok (-1, released pvd dir s) := by
  rw [delivered, if_neg h]

/-! ### The memory below the arena -/

theorem Opened.mem_below {dirRead : IsoDirectoryRecord} {filename : List UInt8} {s s' : CdState} {d : IsoDir}
    (h : Opened cd dirRead filename s d s') {x : Nat} (hx : x < memoryManagerStart) :
    s'.heap.heap.mem x = s.heap.heap.mem x := by
  obtain ⟨heap, hbuffer, hname⟩ := h.heap
  exact (ClientHeap.malloc_mem_below hname hx).trans (ClientHeap.malloc_mem_below hbuffer hx)

theorem mem_below_of_walkTo {p q : IsoDir × CdState} (hwalk : WalkTo cd szcPath p q) {x : Nat}
    (hx : x < memoryManagerStart) : q.2.heap.heap.mem x = p.2.heap.heap.mem x := by
  induction hwalk with
  | refl => rfl
  | tail _ henters ih =>
      obtain ⟨dir, newfilename, -, hopen⟩ := henters
      exact ((opened_of_eq hopen).mem_below hx).trans ih

theorem free_mem_below (heap : ClientHeap) (block : Block) {x : Nat} (hx : x < memoryManagerStart) :
    (heap.free block).heap.mem x = heap.heap.mem x := free_below block.ptr (by rw [heap.start]; exact hx)

/-- The walk through the directories touches nothing below the arena. -/
theorem readDir_mem_below {rounds value : Nat} {dirRead found : IsoDirectoryRecord} {filename : List UInt8}
    {dirFound : IsoDirectoryRecord} {s s' : CdState}
    (h : readDir cd rounds dirRead szcPath filename dirFound s = some (.ok (value, found, s'))) {x : Nat}
    (hx : x < memoryManagerStart) : s'.heap.heap.mem x = s.heap.heap.mem x := by
  rcases readDir_iff.mp ⟨rounds, h⟩ with ⟨-, hfull⟩ | ⟨p, q, hopen, hwalk, hfinal⟩
  · cases hfull
  · have hlast := (mem_below_of_walkTo hwalk hx).trans ((opened_of_eq hopen).mem_below hx)
    cases hfinal with
    | nothing => exact ((free_mem_below _ _ hx).trans (free_mem_below _ _ hx)).trans hlast
    | found => exact hlast

theorem Descriptors.mem_below (blocks : Descriptors s pvd dir) {x : Nat} (hx : x < memoryManagerStart) :
    (started s).heap.heap.mem x = s.heap.heap.mem x :=
  (ClientHeap.malloc_mem_below blocks.dir hx).trans (ClientHeap.malloc_mem_below blocks.pvd hx)

/-! ### Sectors on the way to a file -/

/-- A volume whose root directory is sector 18. -/
def volumeDescriptor : Nat → UInt8 := fun i => if i = 158 then 18 else if i = 167 then 8 else 0

/-- The disc with this volume, the directory of one file, and the sector of the file. -/
def smallDisc (file : Option (Nat → UInt8)) : CdRom where
  disc := fun sector =>
    if sector = 16 then some volumeDescriptor
    else if sector = 18 then some directorySector
    else if sector = 20 then file
    else none
  fresh := fun _ _ => 0

/-- `/a`. -/
def smallPath : List UInt8 := [0x2f, 0x61]

theorem smallBlocks : Descriptors freshState ⟨0x02A04100, 2048, 1, 1⟩ ⟨0x02A08100, 33, 2, 1⟩ where
  pvd := ClientHeap.malloc_eq_some_iff.mpr ⟨by decide +kernel, by decide, by decide, rfl⟩
  dir := ClientHeap.malloc_eq_some_iff.mpr ⟨by decide +kernel, by decide, by decide, rfl⟩

/-- The root directory of the disc when it is open. -/
def smallRoot : IsoDir :=
  ⟨[], Mem.write (fun _ => 0) 0 2048 directorySector, ⟨0x02A0C100, 2048, 3, 1⟩, 2048, 0, [], ⟨0x02A10100, 1024, 4, 1⟩⟩

/-- The state then. -/
def smallState : CdState := ⟨((started freshState).heap.afterMalloc 2048).afterMalloc 1024, [18, 16], true⟩

/-- The root directory of such a volume takes the next two blocks. -/
theorem volumeRoot_opened (cd : CdRom) :
    openDirectory cd (rootRecord volumeDescriptor) [] (started freshState) =
      .ok (⟨[], readSectors cd.disc (rootRecord volumeDescriptor).extent
          ((rootRecord volumeDescriptor).size / isoBlocksize) 0 (cd.fresh 0x02A0C100), ⟨0x02A0C100, 2048, 3, 1⟩, 2048,
          0, [], ⟨0x02A10100, 1024, 4, 1⟩⟩, smallState) := by
  have hbuffer : (started freshState).heap.malloc (rootRecord volumeDescriptor).size =
      some (⟨0x02A0C100, 2048, 3, 1⟩, (started freshState).heap.afterMalloc 2048) :=
    ClientHeap.malloc_eq_some_iff.mpr ⟨by decide +kernel, by decide, by decide, rfl⟩
  have hname : ((started freshState).heap.afterMalloc 2048).malloc 1024 =
      some (⟨0x02A10100, 1024, 4, 1⟩, smallState.heap) :=
    ClientHeap.malloc_eq_some_iff.mpr ⟨by decide +kernel, by decide, by decide, rfl⟩
  rw [openDirectory_of_blocks hbuffer hname]
  rfl

theorem smallRoot_opened (file : Option (Nat → UInt8)) :
    openDirectory (smallDisc file) (rootRecord volumeDescriptor) [] (started freshState) = .ok (smallRoot, smallState) := by
  rw [volumeRoot_opened]
  rfl

theorem smallRoot_decision : decision smallPath smallRoot = .found (recordAt smallRoot.buffer 0) := by
  rfl

/-- The blocks for a path of which the root directory holds no more than the end. -/
theorem CallBlocksFound.of_root {path : List UInt8} {root : IsoDir} (hread : cd.disc 16 = some volumeDescriptor)
    (hopen : openDirectory cd (rootRecord volumeDescriptor) [] (started freshState) = .ok (root, smallState))
    (h : ∀ dir newfilename, decision path root ≠ .enter dir newfilename) : CallBlocksFound cd path freshState := by
  refine ⟨⟨_, _, smallBlocks⟩, fun bytes hbytes => ?_⟩
  rw [hread] at hbytes
  cases hbytes
  exact BlocksFound.of_decided hopen h

end Cromwell.Iso
