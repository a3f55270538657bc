/-
Module: Cromwell.Iso.Directory
Layer: Proofs
Purpose: The loop of `read_dir`, directory by directory. Where its records begin is a matter of the length bytes
  only, and what the loop does with them is decided by the first record that is the path or a directory on it. The
  walk through the directories is a relation between one open directory and the next, and as every directory takes
  two blocks of the heap, it ends, if only where there are no more of them.
Imports: Cromwell.Iso.Iso9660
Trusted boundary: offsets, Decision, decideFrom, visitedFrom, Enters
Main exports: offsets, decision, visited, readDirLoop_directory, WalkTo, Final, exists_final, readDirLoop_iff
-/
import Cromwell.Iso.Iso9660

namespace Cromwell.Iso

open ByteMemory
open Cromwell.BootLibrary (memcmp memcmp_eq_zero)
open Cromwell.MemoryManager (Block ClientHeap)

/-! ### The records of a directory -/

/-- The record at an offset. -/
def recordAt (buffer : Mem) (offset : Nat) : IsoDirectoryRecord := fun i => buffer (offset + i)

/-- Where the loop looks for a record when it goes through the whole directory. -/
def offsets (buffer : Mem) (readSize : Nat) : Nat → Nat → List Nat
  | 0, _ => []
  | left + 1, offset =>
      if readSize ≤ offset then []
      else if (recordAt buffer offset).recordLength = 0 then
        offset :: offsets buffer readSize left ((offset + isoBlocksize) / isoBlocksize * isoBlocksize)
      else offset :: offsets buffer readSize left (offset + (recordAt buffer offset).recordLength)

/-- `newfilename` after a record. -/
def nameAfter (filename : List UInt8) (dir : IsoDirectoryRecord) (newfilename : List UInt8) : List UInt8 :=
  if dir.named then filename ++ 0x2f :: iso9660NameTranslate dir.name dir.nameLen else newfilename

/-- The record is taken for the file that is looked for. -/
def IsPath (search newfilename : List UInt8) : Prop :=
  newfilename.length ≤ search.length ∧ memcmp (stringBytes newfilename) (stringBytes search) search.length = 0

/-- The record is taken for a directory on the path. -/
def IsOnPath (search newfilename : List UInt8) (dir : IsoDirectoryRecord) : Prop :=
  dir.flags &&& isDir ≠ 0 ∧ 1 < dir.nameLen ∧ newfilename.length < search.length ∧
    memcmp (stringBytes search) (stringBytes newfilename) newfilename.length = 0 ∧
    stringBytes search newfilename.length = 0x2f

instance (search newfilename : List UInt8) : Decidable (IsPath search newfilename) :=
  inferInstanceAs (Decidable (_ ∧ _))

instance (search newfilename : List UInt8) (dir : IsoDirectoryRecord) : Decidable (IsOnPath search newfilename dir) :=
  inferInstanceAs (Decidable (_ ∧ _))

/-- What a directory comes to. -/
inductive Decision where
  | nothing
  | overlong
  | found (dir : IsoDirectoryRecord)
  | enter (dir : IsoDirectoryRecord) (newfilename : List UInt8)

/-- The first record that counts. -/
def decideFrom (search filename : List UInt8) (buffer : Mem) : List Nat → List UInt8 → Decision
  | [], _ => .nothing
  | offset :: rest, newfilename =>
      let dir := recordAt buffer offset
      if dir.recordLength = 0 then decideFrom search filename buffer rest newfilename
      else if dir.named ∧ 1024 < (nameAfter filename dir newfilename).length + 1 then .overlong
      else if IsPath search (nameAfter filename dir newfilename) then .found dir
      else if IsOnPath search (nameAfter filename dir newfilename) dir then .enter dir (nameAfter filename dir newfilename)
      else decideFrom search filename buffer rest (nameAfter filename dir newfilename)

/-- The places that the loop looks at until then. -/
def visitedFrom (search filename : List UInt8) (buffer : Mem) : List Nat → List UInt8 → List Nat
  | [], _ => []
  | offset :: rest, newfilename =>
      let dir := recordAt buffer offset
      if dir.recordLength = 0 then offset :: visitedFrom search filename buffer rest newfilename
      else if dir.named ∧ 1024 < (nameAfter filename dir newfilename).length + 1 then [offset]
      else if IsPath search (nameAfter filename dir newfilename) then [offset]
      else if IsOnPath search (nameAfter filename dir newfilename) dir then [offset]
      else offset :: visitedFrom search filename buffer rest (nameAfter filename dir newfilename)

/-- The whole directory: no record is shorter than a byte. -/
def allOffsets (d : IsoDir) : List Nat := offsets d.buffer d.readSize d.readSize 0

def decision (search : List UInt8) (d : IsoDir) : Decision := decideFrom search d.filename d.buffer (allOffsets d) []

def visited (search : List UInt8) (d : IsoDir) : List Nat := visitedFrom search d.filename d.buffer (allOffsets d) []

/-- Every field at these places was loaded. -/
def allLoaded (d : IsoDir) (l : List Nat) : Bool := l.all fun offset => recordLoaded { d with offset := offset }

/-! ### One directory -/

variable {cd : CdRom} {search : List UInt8}

/-- What `read_dir` does when its directory is decided. -/
def conclude (cd : CdRom) (search : List UInt8) (rounds : Nat) (d : IsoDir) (dirFound : IsoDirectoryRecord)
    (s : CdState) : Decision → Option DirResult
  | .nothing => some (.ok (0, dirFound, { s with heap := (s.heap.free d.bufferBlock).free d.newfilenameBlock }))
  | .overlong => some (.error .nameBuffer)
  | .found dir => some (.ok (dir.extent, dirFound.write 0 IsoDirectoryRecord.sizeof dir, s))
  | .enter dir newfilename =>
      match openDirectory cd dir newfilename s with
      | .error fault => some (.error fault)
      | .ok (d', s) => readDirLoop cd search rounds d' dirFound s

/-- A round of the loop, in the words of the decision. -/
theorem scanRecord_eq (search : List UInt8) (d : IsoDir) :
    scanRecord search d =
      if d.readSize ≤ d.offset then .ok .finished
      else if (recordAt d.buffer d.offset).recordLength = 0 then
        .ok (.next { d with offset := u32 (d.offset + isoBlocksize) / isoBlocksize * isoBlocksize })
      else if (recordAt d.buffer d.offset).named ∧
          1024 < (nameAfter d.filename (recordAt d.buffer d.offset) d.newfilename).length + 1 then .error .nameBuffer
      else if IsPath search (nameAfter d.filename (recordAt d.buffer d.offset) d.newfilename) then
        .ok (.found (recordAt d.buffer d.offset))
      else if IsOnPath search (nameAfter d.filename (recordAt d.buffer d.offset) d.newfilename)
          (recordAt d.buffer d.offset) then
        .ok (.enter (recordAt d.buffer d.offset) (nameAfter d.filename (recordAt d.buffer d.offset) d.newfilename))
      else
        .ok (.next
          { d with
            offset := u32 (d.offset + (recordAt d.buffer d.offset).recordLength)
            newfilename := nameAfter d.filename (recordAt d.buffer d.offset) d.newfilename }) := rfl

theorem recordLength_lt (dir : IsoDirectoryRecord) : dir.recordLength < 256 := (dir 0).toNat_lt

/-- The loop has come to the end of the directory. -/
theorem readDirLoop_finished (dirFound : IsoDirectoryRecord) {d : IsoDir} (hle : d.readSize ≤ d.offset) (s : CdState)
    (rounds : Nat) :
    readDirLoop cd search (rounds + 1) d dirFound s = conclude cd search rounds d dirFound s .nothing := by
  rw [readDirLoop, scanRecord_eq, if_pos hle, conclude]

/-- What has been loaded so far, and the next place. -/
theorem and_allLoaded_cons (d : IsoDir) (b : Bool) (l : List Nat) :
    (b && recordLoaded d && allLoaded d l) = (b && allLoaded d (d.offset :: l)) := by
  rw [allLoaded, allLoaded, List.all_cons, Bool.and_assoc]

theorem and_allLoaded_single (d : IsoDir) (b : Bool) :
    (b && recordLoaded d) = (b && allLoaded d [d.offset]) := by
  rw [allLoaded, List.all_cons, List.all_nil, Bool.and_true]

/-- The loop goes on until the directory is decided. -/
theorem readDirLoop_scan (dirFound : IsoDirectoryRecord) {left : Nat} {d : IsoDir} {s : CdState}
    (hleft : d.readSize - d.offset ≤ left) (hsize : d.readSize ≤ 0x500000) :
    ∃ n, ∀ rounds, readDirLoop cd search (n + rounds) d dirFound s =
      conclude cd search rounds d dirFound
        { s with fieldsLoaded := s.fieldsLoaded &&
            allLoaded d (visitedFrom search d.filename d.buffer (offsets d.buffer d.readSize left d.offset)
              d.newfilename) }
        (decideFrom search d.filename d.buffer (offsets d.buffer d.readSize left d.offset) d.newfilename) := by
  induction left generalizing d s with
  | zero =>
      refine ⟨1, fun rounds => ?_⟩
      rw [Nat.add_comm 1 rounds, readDirLoop_finished dirFound (by omega), offsets, visitedFrom, decideFrom, allLoaded,
        List.all_nil, Bool.and_true]
  | succ left ih =>
      by_cases hle : d.readSize ≤ d.offset
      · refine ⟨1, fun rounds => ?_⟩
        rw [Nat.add_comm 1 rounds, readDirLoop_finished dirFound hle, offsets, if_pos hle, visitedFrom, decideFrom,
          allLoaded, List.all_nil, Bool.and_true]
      · rw [offsets, if_neg hle]
        by_cases hlength : (recordAt d.buffer d.offset).recordLength = 0
        · -- padding at the end of a sector
          have hnext : u32 (d.offset + isoBlocksize) / isoBlocksize * isoBlocksize =
              (d.offset + isoBlocksize) / isoBlocksize * isoBlocksize := by
            rw [u32_of_lt (by rw [isoBlocksize]; omega)]
          have hgrow : d.offset + 1 ≤ (d.offset + isoBlocksize) / isoBlocksize * isoBlocksize := by
            rw [isoBlocksize]
            omega
          obtain ⟨n, hn⟩ := ih (s := { s with fieldsLoaded := s.fieldsLoaded && recordLoaded d })
            (d := { d with offset := (d.offset + isoBlocksize) / isoBlocksize * isoBlocksize })
            (by dsimp only; omega) hsize
          refine ⟨n + 1, fun rounds => ?_⟩
          have hrounds : n + 1 + rounds = n + rounds + 1 := by omega
          rw [if_pos hlength, decideFrom, visitedFrom, if_pos hlength, if_pos hlength, hrounds, readDirLoop,
            scanRecord_eq, if_neg hle, if_pos hlength, hnext, ← and_allLoaded_cons]
          exact hn rounds
        · rw [if_neg hlength, decideFrom, visitedFrom, if_neg hlength, if_neg hlength]
          have hround : ∀ rounds, readDirLoop cd search (1 + rounds) d dirFound s =
              readDirLoop cd search (rounds + 1) d dirFound s := by
            intro rounds
            rw [Nat.add_comm]
          by_cases hlong : (recordAt d.buffer d.offset).named ∧
              1024 < (nameAfter d.filename (recordAt d.buffer d.offset) d.newfilename).length + 1
          · refine ⟨1, fun rounds => ?_⟩
            rw [if_pos hlong, if_pos hlong, hround, readDirLoop, scanRecord_eq, if_neg hle, if_neg hlength,
              if_pos hlong, conclude]
          · rw [if_neg hlong, if_neg hlong]
            by_cases hpath : IsPath search (nameAfter d.filename (recordAt d.buffer d.offset) d.newfilename)
            · refine ⟨1, fun rounds => ?_⟩
              rw [if_pos hpath, if_pos hpath, hround, readDirLoop, scanRecord_eq, if_neg hle, if_neg hlength,
                if_neg hlong, if_pos hpath, conclude, ← and_allLoaded_single]
            · rw [if_neg hpath, if_neg hpath]
              by_cases hdir : IsOnPath search (nameAfter d.filename (recordAt d.buffer d.offset) d.newfilename)
                  (recordAt d.buffer d.offset)
              · refine ⟨1, fun rounds => ?_⟩
                rw [if_pos hdir, if_pos hdir, hround, readDirLoop, scanRecord_eq, if_neg hle, if_neg hlength,
                  if_neg hlong, if_neg hpath, if_pos hdir, ← and_allLoaded_single]
                rfl
              · have hlt := recordLength_lt (recordAt d.buffer d.offset)
                have hnext : u32 (d.offset + (recordAt d.buffer d.offset).recordLength) =
                    d.offset + (recordAt d.buffer d.offset).recordLength := u32_of_lt (by omega)
                obtain ⟨n, hn⟩ := ih (s := { s with fieldsLoaded := s.fieldsLoaded && recordLoaded d })
                  (d := { d with
                    offset := d.offset + (recordAt d.buffer d.offset).recordLength
                    newfilename := nameAfter d.filename (recordAt d.buffer d.offset) d.newfilename })
                  (by dsimp only; omega) hsize
                refine ⟨n + 1, fun rounds => ?_⟩
                have hrounds : n + 1 + rounds = n + rounds + 1 := by omega
                rw [if_neg hdir, if_neg hdir, hrounds, readDirLoop, scanRecord_eq, if_neg hle, if_neg hlength,
                  if_neg hlong, if_neg hpath, if_neg hdir, hnext, ← and_allLoaded_cons]
                exact hn rounds

/-! ### Directories that are opened -/

/-- What `read_dir` has done when its loop begins. -/
structure Opened (cd : CdRom) (dirRead : IsoDirectoryRecord) (filename : List UInt8) (s : CdState) (d : IsoDir)
    (s' : CdState) : Prop where
  filename : d.filename = filename
  buffer : d.buffer = readSectors cd.disc dirRead.extent (dirRead.size / isoBlocksize) 0 (cd.fresh d.bufferBlock.ptr)
  readSize : d.readSize = dirRead.size
  offset : d.offset = 0
  newfilename : d.newfilename = []
  heap : ∃ heap, s.heap.malloc dirRead.size = some (d.bufferBlock, heap) ∧
    heap.malloc 1024 = some (d.newfilenameBlock, s'.heap)
  issued : s'.issued = sectorsFrom dirRead.extent (dirRead.size / isoBlocksize) ++ s.issued
  fieldsLoaded : s'.fieldsLoaded = s.fieldsLoaded

/-- `read_dir` opens its directory, or `malloc` has no block for it. -/
theorem openDirectory_cases (cd : CdRom) (dirRead : IsoDirectoryRecord) (filename : List UInt8) (s : CdState) :
    openDirectory cd dirRead filename s = .error .noBlock ∨
      ∃ d s', openDirectory cd dirRead filename s = .ok (d, s') ∧ Opened cd dirRead filename s d s' := by
  rw [openDirectory]
  dsimp only
  cases hbuffer : s.heap.malloc dirRead.size with
  | none => exact Or.inl rfl
  | some parts =>
      obtain ⟨bufferBlock, heap⟩ := parts
      dsimp only
      cases hname : heap.malloc 1024 with
      | none => exact Or.inl rfl
      | some parts =>
          obtain ⟨newfilenameBlock, heap'⟩ := parts
          exact Or.inr ⟨_, _, rfl, ⟨rfl, rfl, rfl, rfl, rfl, ⟨heap, hbuffer, hname⟩, rfl, rfl⟩⟩

theorem opened_of_eq {dirRead : IsoDirectoryRecord} {filename : List UInt8} {s s' : CdState} {d : IsoDir}
    (h : openDirectory cd dirRead filename s = .ok (d, s')) : Opened cd dirRead filename s d s' := by
  rcases openDirectory_cases cd dirRead filename s with herror | ⟨d', s'', hopen, hopened⟩
  · rw [h] at herror
    cases herror
  · rw [h] at hopen
    cases hopen
    exact hopened

theorem Opened.le {dirRead : IsoDirectoryRecord} {filename : List UInt8} {s s' : CdState} {d : IsoDir}
    (h : Opened cd dirRead filename s d s') : d.readSize ≤ 0x500000 := by
  obtain ⟨heap, hbuffer, -⟩ := h.heap
  rw [h.readSize]
  exact ClientHeap.malloc_size_le hbuffer

/-- A directory that is opened takes clusters that were free. -/
theorem Opened.freeClusters_lt {dirRead : IsoDirectoryRecord} {filename : List UInt8} {s s' : CdState} {d : IsoDir}
    (h : Opened cd dirRead filename s d s') : s'.heap.freeClusters.card < s.heap.freeClusters.card := by
  obtain ⟨heap, hbuffer, hname⟩ := h.heap
  exact Nat.lt_trans (ClientHeap.freeClusters_malloc hname) (ClientHeap.freeClusters_malloc hbuffer)

theorem Opened.live {dirRead : IsoDirectoryRecord} {filename : List UInt8} {s s' : CdState} {d : IsoDir}
    (h : Opened cd dirRead filename s d s') :
    s'.heap.live = d.newfilenameBlock :: d.bufferBlock :: s.heap.live := by
  obtain ⟨heap, hbuffer, hname⟩ := h.heap
  rw [ClientHeap.malloc_live hname, ClientHeap.malloc_live hbuffer]

/-! ### The walk -/

/-- The state when a directory is decided. -/
def decided (search : List UInt8) (d : IsoDir) (s : CdState) : CdState :=
  { s with fieldsLoaded := s.fieldsLoaded && allLoaded d (visited search d) }

theorem decided_heap (search : List UInt8) (d : IsoDir) (s : CdState) : (decided search d s).heap = s.heap := rfl

/-- A directory that has just been opened. -/
structure AtStart (d : IsoDir) : Prop where
  offset : d.offset = 0
  newfilename : d.newfilename = []
  le : d.readSize ≤ 0x500000

theorem Opened.atStart {dirRead : IsoDirectoryRecord} {filename : List UInt8} {s s' : CdState} {d : IsoDir}
    (h : Opened cd dirRead filename s d s') : AtStart d := ⟨h.offset, h.newfilename, h.le⟩

theorem readDirLoop_directory (dirFound : IsoDirectoryRecord) {d : IsoDir} (hd : AtStart d) (s : CdState) :
    ∃ n, ∀ rounds, readDirLoop cd search (n + rounds) d dirFound s =
      conclude cd search rounds d dirFound (decided search d s) (decision search d) := by
  have hscan := @readDirLoop_scan cd search dirFound d.readSize d s (Nat.sub_le _ _) hd.le
  rw [hd.offset, hd.newfilename] at hscan
  exact hscan

/-- The walk goes from an open directory into the next one. -/
def Enters (cd : CdRom) (search : List UInt8) (p q : IsoDir × CdState) : Prop :=
  ∃ dir newfilename, decision search p.1 = .enter dir newfilename ∧
    openDirectory cd dir newfilename (decided search p.1 p.2) = .ok q

/-- The walk comes to an open directory. -/
abbrev WalkTo (cd : CdRom) (search : List UInt8) : IsoDir × CdState → IsoDir × CdState → Prop :=
  Relation.ReflTransGen (Enters cd search)

/-- The walk ends in an open directory, and this is its result. -/
inductive Final (cd : CdRom) (search : List UInt8) (dirFound : IsoDirectoryRecord) :
    IsoDir × CdState → DirResult → Prop where
  | nothing {d : IsoDir} {s : CdState} (h : decision search d = .nothing) :
      Final cd search dirFound (d, s) (.ok (0, dirFound,
        { decided search d s with heap := (s.heap.free d.bufferBlock).free d.newfilenameBlock }))
  | overlong {d : IsoDir} {s : CdState} (h : decision search d = .overlong) :
      Final cd search dirFound (d, s) (.error .nameBuffer)
  | found {d : IsoDir} {s : CdState} {dir : IsoDirectoryRecord} (h : decision search d = .found dir) :
      Final cd search dirFound (d, s)
        (.ok (dir.extent, dirFound.write 0 IsoDirectoryRecord.sizeof dir, decided search d s))
  | noBlock {d : IsoDir} {s : CdState} {dir : IsoDirectoryRecord} {newfilename : List UInt8}
      (h : decision search d = .enter dir newfilename)
      (full : openDirectory cd dir newfilename (decided search d s) = .error .noBlock) :
      Final cd search dirFound (d, s) (.error .noBlock)

theorem enters_rightUnique : Relator.RightUnique (Enters cd search) := by
  rintro p ⟨d, s⟩ ⟨d', s'⟩ ⟨dir, newfilename, hdecision, hopen⟩ ⟨dir', newfilename', hdecision', hopen'⟩
  rw [hdecision] at hdecision'
  cases hdecision'
  rw [hopen] at hopen'
  cases hopen'
  rfl

theorem Enters.atStart {p q : IsoDir × CdState} (h : Enters cd search p q) : AtStart q.1 := by
  obtain ⟨dir, newfilename, -, hopen⟩ := h
  exact (opened_of_eq hopen).atStart

/-- Where the walk ends it does not go on. -/
theorem Final.not_enters {dirFound : IsoDirectoryRecord} {p q : IsoDir × CdState} {result : DirResult}
    (h : Final cd search dirFound p result) : ¬ Enters cd search p q := by
  rintro ⟨dir, newfilename, hdecision, hopen⟩
  cases h with
  | nothing h | overlong h | found h =>
      rw [h] at hdecision
      cases hdecision
  | noBlock h hfull =>
      rw [h] at hdecision
      cases hdecision
      rw [hfull] at hopen
      cases hopen

/-- The directories on the way to the last one. -/
theorem Final.walkTo {dirFound : IsoDirectoryRecord} {p q r : IsoDir × CdState} {result : DirResult}
    (h : Final cd search dirFound r result) (hr : WalkTo cd search p r) (hq : WalkTo cd search p q) :
    WalkTo cd search q r := by
  rcases Relation.ReflTransGen.total_of_right_unique enters_rightUnique hr hq with hback | hforth
  · rcases hback.cases_head with rfl | ⟨next, henters, -⟩
    · exact Relation.ReflTransGen.refl
    · exact absurd henters h.not_enters
  · exact hforth

/-- Every walk ends: the clusters are used up otherwise. -/
theorem exists_final (cd : CdRom) (search : List UInt8) (dirFound : IsoDirectoryRecord) (p : IsoDir × CdState) :
    ∃ q result, WalkTo cd search p q ∧ Final cd search dirFound q result := by
  induction hn : p.2.heap.freeClusters.card using Nat.strong_induction_on generalizing p with
  | _ n ih =>
    obtain ⟨d, s⟩ := p
    cases h : decision search d with
    | nothing => exact ⟨_, _, Relation.ReflTransGen.refl, Final.nothing h⟩
    | overlong => exact ⟨_, _, Relation.ReflTransGen.refl, Final.overlong h⟩
    | found dir => exact ⟨_, _, Relation.ReflTransGen.refl, Final.found h⟩
    | enter dir newfilename =>
        rcases openDirectory_cases cd dir newfilename (decided search d s) with hfull | ⟨d', s', hopen, hopened⟩
        · exact ⟨_, _, Relation.ReflTransGen.refl, Final.noBlock h hfull⟩
        · have hless : s'.heap.freeClusters.card < (decided search d s).heap.freeClusters.card := hopened.freeClusters_lt
          obtain ⟨q, result, hwalk, hfinal⟩ := ih _ (hn ▸ hless) (d', s') rfl
          exact ⟨q, result, hwalk.head ⟨dir, newfilename, h, hopen⟩, hfinal⟩

/-- What the loop does in the last directory. -/
theorem Final.conclude_eq {dirFound : IsoDirectoryRecord} {p : IsoDir × CdState} {result : DirResult}
    (h : Final cd search dirFound p result) (rounds : Nat) :
    conclude cd search rounds p.1 dirFound (decided search p.1 p.2) (decision search p.1) = some result := by
  cases h with
  | nothing h | overlong h | found h =>
      dsimp only
      rw [h]
      rfl
  | noBlock h hfull =>
      dsimp only
      rw [h, conclude, hfull]

/-- The loop computes the result of the walk. -/
theorem readDirLoop_of_final {dirFound : IsoDirectoryRecord} {p q : IsoDir × CdState} {result : DirResult}
    (hp : AtStart p.1) (hwalk : WalkTo cd search p q) (hfinal : Final cd search dirFound q result) :
    ∃ n, ∀ rounds, readDirLoop cd search (n + rounds) p.1 dirFound p.2 = some result := by
  induction hwalk using Relation.ReflTransGen.head_induction_on with
  | refl =>
      obtain ⟨n, hn⟩ := @readDirLoop_directory cd search dirFound q.1 hp q.2
      refine ⟨n, fun rounds => ?_⟩
      rw [hn, hfinal.conclude_eq]
  | @head p next henters _ ih =>
      obtain ⟨n, hn⟩ := @readDirLoop_directory cd search dirFound p.1 hp p.2
      obtain ⟨m, hm⟩ := ih henters.atStart
      obtain ⟨dir, newfilename, hdecision, hopen⟩ := henters
      refine ⟨n + m, fun rounds => ?_⟩
      rw [Nat.add_assoc, hn, hdecision, conclude, hopen]
      exact hm rounds

/-- More rounds do not change the result. -/
theorem readDirLoop_add {dirFound : IsoDirectoryRecord} {rounds : Nat} {d : IsoDir} {s : CdState}
    {result : DirResult} (h : readDirLoop cd search rounds d dirFound s = some result) (more : Nat) :
    readDirLoop cd search (rounds + more) d dirFound s = some result := by
  induction rounds generalizing d s with
  | zero =>
      cases h
  | succ rounds ih =>
      rw [readDirLoop] at h
      rw [Nat.add_right_comm, readDirLoop]
      cases hscan : scanRecord search d with
      | error fault =>
          rw [hscan] at h
          exact h
      | ok scanned =>
          rw [hscan] at h
          cases scanned with
          | finished => exact h
          | found dir => exact h
          | next d' => exact ih h
          | enter dir newfilename =>
              dsimp only at h ⊢
              split at h
              case h_1 heq =>
                  exact h
              case h_2 heq =>
                  exact ih h

/-- The results of the loop are those of the walk. -/
theorem readDirLoop_iff {dirFound : IsoDirectoryRecord} {p : IsoDir × CdState} {result : DirResult}
    (hp : AtStart p.1) :
    (∃ rounds, readDirLoop cd search rounds p.1 dirFound p.2 = some result) ↔
      ∃ q, WalkTo cd search p q ∧ Final cd search dirFound q result := by
  constructor
  · rintro ⟨rounds, hrounds⟩
    obtain ⟨q, result', hwalk, hfinal⟩ := exists_final cd search dirFound p
    obtain ⟨n, hn⟩ := readDirLoop_of_final hp hwalk hfinal
    have hmore := readDirLoop_add hrounds n
    rw [Nat.add_comm, hn] at hmore
    cases hmore
    exact ⟨q, hwalk, hfinal⟩
  · rintro ⟨q, hwalk, hfinal⟩
    obtain ⟨n, hn⟩ := readDirLoop_of_final hp hwalk hfinal
    exact ⟨n, hn 0⟩

end Cromwell.Iso
