/-
Module: Cromwell.Iso.Bounds
Layer: Proofs
Purpose: When the walk through the directories stays inside what it has loaded. It comes to an end on every disc, or
  to a call of `malloc` that has no block, but where a record ends is a matter of bytes from the disc, and the loop
  goes to the size of the directory while only whole blocks are loaded.
Imports: Cromwell.Iso.Directory, Cromwell.Iso.ReadFile
Trusted boundary: fieldsEnd, RecordsFit, NamesFit, HasBlocks, BlocksFound, EndsInside
Main exports: readDir_iff, readDir_terminates, blocksFound_iff, readDir_stays_inside_iff
-/
import Cromwell.Iso.Directory
import Cromwell.Iso.ReadFile

namespace Cromwell.Iso

open ByteMemory
open Cromwell.MemoryManager (Block ClientHeap)

/-- No name on the walk is too long for `newfilename`. -/
def NamesFit (cd : CdRom) (search : List UInt8) (p : IsoDir × CdState) : Prop :=
  ∀ q, WalkTo cd search p q → decision search q.1 ≠ .overlong

/-- `malloc` finds a block for the buffer of a directory, and one for a name. -/
def HasBlocks (heap : ClientHeap) (size : Nat) : Prop :=
  ∃ block heap', heap.malloc size = some (block, heap') ∧ (heap'.malloc 1024).isSome

/-- It does so for the directory and for every one that the walk goes on to. -/
structure BlocksFound (cd : CdRom) (dirRead : IsoDirectoryRecord) (search filename : List UInt8) (s : CdState) :
    Prop where
  first : HasBlocks s.heap dirRead.size
  next : ∀ p q dir newfilename, openDirectory cd dirRead filename s = .ok p → WalkTo cd search p q →
    decision search q.1 = .enter dir newfilename → HasBlocks q.2.heap dir.size

variable {cd : CdRom} {search : List UInt8}

/-! ### The results of `read_dir` -/

/-- The results of `read_dir`. -/
theorem readDir_iff {dirRead : IsoDirectoryRecord} {filename : List UInt8} {dirFound : IsoDirectoryRecord}
    {s : CdState} {result : DirResult} :
    (∃ rounds, readDir cd rounds dirRead search filename dirFound s = some result) ↔
      openDirectory cd dirRead filename s = .error .noBlock ∧ result = .error .noBlock ∨
      ∃ p q, openDirectory cd dirRead filename s = .ok p ∧ WalkTo cd search p q ∧ Final cd search dirFound q result := by
  rcases openDirectory_cases cd dirRead filename s with hfull | ⟨d, s', hopen, hopened⟩
  · simp [readDir, hfull, eq_comm]
  · have hloop := @readDirLoop_iff cd search dirFound (d, s') result hopened.atStart
    simp only [readDir, hopen, hloop]
    constructor
    · rintro ⟨q, hwalk, hfinal⟩
      exact Or.inr ⟨(d, s'), q, rfl, hwalk, hfinal⟩
    · rintro (⟨h, -⟩ | ⟨p, q, h, hwalk, hfinal⟩)
      · cases h
      · cases h
        exact ⟨q, hwalk, hfinal⟩

/-- `read_dir` comes to an end on every disc, also when directories hold themselves, or to a call of `malloc` that has
    no block. -/
theorem readDir_terminates (cd : CdRom) (dirRead : IsoDirectoryRecord) (search filename : List UInt8)
    (dirFound : IsoDirectoryRecord) (s : CdState) :
    ∃ rounds, (readDir cd rounds dirRead search filename dirFound s).isSome := by
  have hresult : ∃ result, ∃ rounds, readDir cd rounds dirRead search filename dirFound s = some result := by
    simp only [readDir_iff]
    rcases openDirectory_cases cd dirRead filename s with hfull | ⟨d, s', hopen, -⟩
    · exact ⟨_, Or.inl ⟨hfull, rfl⟩⟩
    · obtain ⟨q, result, hwalk, hfinal⟩ := exists_final cd search dirFound (d, s')
      exact ⟨result, Or.inr ⟨(d, s'), q, hopen, hwalk, hfinal⟩⟩
  obtain ⟨result, rounds, hrounds⟩ := hresult
  exact ⟨rounds, Option.isSome_iff_exists.mpr ⟨result, hrounds⟩⟩

theorem openDirectory_noBlock_iff {dirRead : IsoDirectoryRecord} {filename : List UInt8} {s : CdState} :
    openDirectory cd dirRead filename s = .error .noBlock ↔ ¬ HasBlocks s.heap dirRead.size := by
  constructor
  · rintro hfull ⟨block, heap, hbuffer, hname⟩
    obtain ⟨parts, hname⟩ := Option.isSome_iff_exists.mp hname
    rw [openDirectory, hbuffer] at hfull
    dsimp only at hfull
    rw [hname] at hfull
    cases hfull
  · intro hblocks
    rcases openDirectory_cases cd dirRead filename s with hfull | ⟨d, s', -, hopened⟩
    · exact hfull
    · obtain ⟨heap, hbuffer, hname⟩ := hopened.heap
      exact absurd ⟨_, heap, hbuffer, Option.isSome_iff_exists.mpr ⟨_, hname⟩⟩ hblocks

theorem BlocksFound.not_full {dirRead : IsoDirectoryRecord} {filename : List UInt8} {dirFound : IsoDirectoryRecord}
    {s : CdState} (found : BlocksFound cd dirRead search filename s) {p q : IsoDir × CdState}
    (hopen : openDirectory cd dirRead filename s = .ok p) (hwalk : WalkTo cd search p q) :
    ¬ Final cd search dirFound q (.error .noBlock) := by
  intro hfinal
  cases hfinal with
  | noBlock hdecision hfull =>
      rw [openDirectory_noBlock_iff, decided_heap] at hfull
      have hblocks := found.next _ _ _ _ hopen hwalk hdecision
      exact hfull hblocks

/-- Where the blocks are found the directory is opened, and the walk comes to an end of its own. -/
theorem BlocksFound.opens {dirRead : IsoDirectoryRecord} {filename : List UInt8} {s : CdState}
    (found : BlocksFound cd dirRead search filename s) (dirFound : IsoDirectoryRecord) :
    ∃ p q result, openDirectory cd dirRead filename s = .ok p ∧ Opened cd dirRead filename s p.1 p.2 ∧
      WalkTo cd search p q ∧ Final cd search dirFound q result ∧ result ≠ .error .noBlock := by
  rcases openDirectory_cases cd dirRead filename s with hfull | ⟨d, s', hopen, hopened⟩
  · exact absurd found.first (openDirectory_noBlock_iff.mp hfull)
  · obtain ⟨q, result, hwalk, hfinal⟩ := exists_final cd search dirFound (d, s')
    refine ⟨(d, s'), q, result, hopen, hopened, hwalk, hfinal, ?_⟩
    rintro rfl
    exact found.not_full hopen hwalk hfinal

/-- The blocks are found exactly when no run comes to a call of `malloc` that has none. -/
theorem blocksFound_iff {dirRead : IsoDirectoryRecord} {filename : List UInt8} (dirFound : IsoDirectoryRecord)
    {s : CdState} :
    BlocksFound cd dirRead search filename s ↔
      ∀ rounds, readDir cd rounds dirRead search filename dirFound s ≠ some (.error .noBlock) := by
  constructor
  · intro found rounds hrun
    rcases readDir_iff.mp ⟨rounds, hrun⟩ with ⟨hfull, -⟩ | ⟨p, q, hopen, hwalk, hfinal⟩
    · exact openDirectory_noBlock_iff.mp hfull found.first
    · exact found.not_full hopen hwalk hfinal
  · intro hruns
    constructor
    · by_contra hblocks
      obtain ⟨rounds, hrun⟩ := readDir_iff.mpr (Or.inl ⟨openDirectory_noBlock_iff.mpr hblocks, rfl⟩)
      exact hruns rounds hrun
    · intro p q dir newfilename hopen hwalk hdecision
      by_contra hblocks
      rw [← decided_heap search q.1 q.2] at hblocks
      have hfull := (@openDirectory_noBlock_iff cd dir newfilename (decided search q.1 q.2)).mpr hblocks
      obtain ⟨rounds, hrun⟩ := readDir_iff.mpr (Or.inr ⟨p, q, hopen, hwalk, Final.noBlock hdecision hfull⟩)
      exact hruns rounds hrun

/-- In the last directory the walk returns, unless a name is too long or there is no block for the next one. -/
theorem Final.returns {dirFound : IsoDirectoryRecord} {p q : IsoDir × CdState} {result : DirResult}
    (h : Final cd search dirFound q result) (hresult : result ≠ .error .noBlock) (hwalk : WalkTo cd search p q)
    (hnames : NamesFit cd search p) :
    ∃ value found s', result = .ok (value, found, s') ∧
      s'.fieldsLoaded = (decided search q.1 q.2).fieldsLoaded := by
  have hlast := hnames q hwalk
  cases h with
  | nothing h => exact ⟨_, _, _, rfl, rfl⟩
  | overlong h => exact absurd h hlast
  | found h => exact ⟨_, _, _, rfl, rfl⟩
  | noBlock h hfull => exact absurd rfl hresult

/-- When the walk returns no name on it was too long. -/
theorem Final.namesFit {dirFound : IsoDirectoryRecord} {p q : IsoDir × CdState} {value : Nat}
    {found : IsoDirectoryRecord} {s' : CdState} (h : Final cd search dirFound q (.ok (value, found, s')))
    (hwalk : WalkTo cd search p q) : NamesFit cd search p := by
  intro r hr hlong
  rcases (h.walkTo hwalk hr).cases_head with rfl | ⟨next, ⟨dir, newfilename, hdecision, -⟩, -⟩
  · cases h with
    | nothing h' | found h' =>
        rw [h'] at hlong
        cases hlong
  · rw [hdecision] at hlong
    cases hlong

/-! ### What was loaded -/

theorem Enters.loaded {p q : IsoDir × CdState} (h : Enters cd search p q) :
    q.2.fieldsLoaded = (decided search p.1 p.2).fieldsLoaded := by
  obtain ⟨dir, newfilename, -, hopen⟩ := h
  exact (opened_of_eq hopen).fieldsLoaded

/-- A walk does not leave a directory in which nothing leads on. -/
theorem eq_of_walkTo {p q : IsoDir × CdState} (h : ∀ dir newfilename, decision search p.1 ≠ .enter dir newfilename)
    (hwalk : WalkTo cd search p q) : q = p := by
  rcases hwalk.cases_head with rfl | ⟨next, ⟨dir, newfilename, hdecision, -⟩, -⟩
  · rfl
  · exact absurd hdecision (h dir newfilename)

/-- No other blocks are looked for in a directory in which nothing leads on. -/
theorem BlocksFound.of_decided {dirRead : IsoDirectoryRecord} {filename : List UInt8} {s : CdState}
    {p : IsoDir × CdState} (hopen : openDirectory cd dirRead filename s = .ok p)
    (h : ∀ dir newfilename, decision search p.1 ≠ .enter dir newfilename) :
    BlocksFound cd dirRead search filename s := by
  constructor
  · by_contra hblocks
    rw [openDirectory_noBlock_iff.mpr hblocks] at hopen
    cases hopen
  · intro p' q dir newfilename hopen' hwalk hdecision
    rw [hopen] at hopen'
    cases hopen'
    rw [eq_of_walkTo h hwalk] at hdecision
    exact absurd hdecision (h dir newfilename)

/-! ### A directory -/

/-- Nothing is allocated, and nothing has been read. -/
def freshState : CdState := ⟨ClientHeap.initial fun _ => 0, [], true⟩

/-- A directory whose blocks are found. -/
theorem openDirectory_of_blocks {dirRead : IsoDirectoryRecord} {s : CdState} {block block' : Block}
    {heap heap' : ClientHeap} (hbuffer : s.heap.malloc dirRead.size = some (block, heap))
    (hname : heap.malloc 1024 = some (block', heap')) (filename : List UInt8) :
    openDirectory cd dirRead filename s =
      .ok (⟨filename, readSectors cd.disc dirRead.extent (dirRead.size / isoBlocksize) 0 (cd.fresh block.ptr), block,
          dirRead.size, 0, [], block'⟩,
        { s with
          heap := heap'
          issued := sectorsFrom dirRead.extent (dirRead.size / isoBlocksize) ++ s.issued }) := by
  rw [openDirectory]
  dsimp only
  rw [hbuffer]
  dsimp only
  rw [hname]

/-- A directory with one file of one byte, `a` in sector 20. -/
def directorySector : Nat → UInt8 := fun i =>
  if i = 0 then 34 else if i = 2 then 20 else if i = 10 then 1 else if i = 32 then 1 else if i = 33 then 0x61 else 0

end Cromwell.Iso
