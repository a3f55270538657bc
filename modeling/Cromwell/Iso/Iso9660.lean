/-
Module: Cromwell.Iso.Iso9660
Layer: Model
Purpose: The ISO 9660 reader: the translation of a name, the walk through the directories that looks for a path, the
  read of a file, and the call that does both, over the heap of `malloc` and `free`. Beside what they compute, the
  functions keep a record of the sectors that they ask for and of whether the fields of the directory records that
  they look at were loaded. What the blocks of directories hold is kept beside the memory.
Imports: Cromwell.BootLibrary, Cromwell.MemoryManager.Client
Trusted boundary: reviewed against src/fs/cdrom/iso9660.c, src/fs/cdrom/iso_fs.h
Main exports: Disc, iso9660NameTranslate, CdState, IsoDir, openDirectory, scanRecord, readDir, readFile,
  bootIso9660GetFile
-/
import Cromwell.BootLibrary
import Cromwell.MemoryManager.Client

namespace Cromwell.Iso

open ByteMemory
open Cromwell.BootLibrary (memcmp)
open Cromwell.MemoryManager (Heap Block ClientHeap malloc free)

/-- `BootIdeReadSector` on a CD-ROM drive: the 2048 bytes of a sector, or an error. -/
abbrev Disc := Nat → Option (Nat → UInt8)

/-- `ISOFS_BLOCK_SIZE` and `ISO_BLOCKSIZE`. -/
def isoBlocksize : Nat := 2048

/-- `IS_DIR`. -/
def isDir : UInt8 := 2

/-! ### Names -/

/-- `isupper`. -/
def isupper (ch : UInt8) : Bool := (ch - 0x41).toNat < 26

/-- `tolower`. -/
def tolower (ch : UInt8) : UInt8 := if (ch - 0x41).toNat < 26 then ch + 0x20 else ch

/-- The loop of `iso9660_name_translate`, with the bytes that are left. -/
def translateFrom (old : Nat → UInt8) (len : Nat) : Nat → Nat → List UInt8
  | 0, _ => []
  | left + 1, i =>
      let c := old i
      if c = 0 then []
      else
        -- lower case
        let c := if isupper c then tolower c else c
        -- Drop trailing '.;1'
        if c = 0x2e ∧ i + 3 = len ∧ old (i + 1) = 0x3b ∧ old (i + 2) = 0x31 then []
        -- Drop trailing ';1'
        else if c = 0x3b ∧ i + 2 = len ∧ old (i + 1) = 0x31 then []
        -- Convert remaining ';' to '.'
        else (if c = 0x3b then 0x2e else c) :: translateFrom old len left (i + 1)

/-- `iso9660_name_translate`: the string that it stores. -/
def iso9660NameTranslate (old : Nat → UInt8) (len : Nat) : List UInt8 := translateFrom old len len 0

/-- How many bytes of the name it looks at: it goes no further than the first NUL. -/
def nameBytesRead (old : Nat → UInt8) (len : Nat) : Nat :=
  min len (((List.range len).takeWhile fun i => old i ≠ 0).length + 1)

/-! ### Directory records -/

/-- `struct iso_directory_record`, as the memory from the record on. -/
abbrev IsoDirectoryRecord := Mem

namespace IsoDirectoryRecord

variable (dir : IsoDirectoryRecord)

/-- `length`. -/
def recordLength : Nat := (dir 0).toNat

/-- `extent`, which is read in little-endian order. -/
def extent : Nat := Mem.loadWord dir 2

/-- `size`. -/
def size : Nat := Mem.loadWord dir 10

/-- `flags`. -/
def flags : UInt8 := dir 25

/-- `name_len`. -/
def nameLen : Nat := (dir 32).toNat

/-- `name`. -/
def name (i : Nat) : UInt8 := dir (33 + i)

/-- The name of a record that is not that of the directory itself or of its parent. -/
def named : Bool := dir.name 0 ≠ 0 && dir.name 0 ≠ 1

/-- `sizeof(struct iso_directory_record)`. -/
def sizeof : Nat := 33

end IsoDirectoryRecord

/-- What is kept beside the run of the reader: the heap, the sectors that were asked for, the last one first, and
    whether every field of a directory record that was looked at lies in the sectors that were loaded. -/
structure CdState where
  heap : ClientHeap
  issued : List Nat
  fieldsLoaded : Bool

/-- The drive, and what the block at an address holds before it is written. -/
structure CdRom where
  disc : Disc
  fresh : Nat → Mem

/-- Where a run is not followed: `malloc` has no block in the arena for what is asked for, or a name does not fit into
    `newfilename`. -/
inductive Fault where
  | noBlock
  | nameBuffer
  deriving DecidableEq

/-! ### The walk through the directories -/

/-- The variables of `read_dir` in its loop. -/
structure IsoDir where
  filename : List UInt8
  buffer : Mem
  bufferBlock : Block
  readSize : Nat
  offset : Nat
  newfilename : List UInt8
  newfilenameBlock : Block

/-- The sectors of a directory, from block `i` of the buffer on; one that cannot be read is left out. -/
def readSectors (disc : Disc) (sector : Nat) : Nat → Nat → Mem → Mem
  | 0, _, buffer => buffer
  | left + 1, i, buffer =>
      readSectors disc sector left (i + 1)
        (match disc (u32 (sector + i)) with
        | none => buffer
        | some bytes => buffer.write (i * isoBlocksize) isoBlocksize bytes)

/-- The sectors that such a loop asks for. -/
def sectorsFrom (sector n : Nat) : List Nat := ((List.range n).map fun i => u32 (sector + i)).reverse

/-- `read_dir` in front of its loop. -/
def openDirectory (cd : CdRom) (dirRead : IsoDirectoryRecord) (filename : List UInt8) (s : CdState) :
    Except Fault (IsoDir × CdState) :=
  let readSize := dirRead.size
  -- the address that `malloc` returns is never `NULL`
  match s.heap.malloc readSize with
  | none => .error .noBlock
  | some (bufferBlock, heap) =>
      let blocks := readSize / isoBlocksize
      let buffer := readSectors cd.disc dirRead.extent blocks 0 (cd.fresh bufferBlock.ptr)
      match heap.malloc 1024 with
      | none => .error .noBlock
      | some (newfilenameBlock, heap) =>
          .ok
            ({ filename := filename
               buffer := buffer
               bufferBlock := bufferBlock
               readSize := readSize
               offset := 0
               newfilename := []
               newfilenameBlock := newfilenameBlock },
             { s with heap := heap, issued := sectorsFrom dirRead.extent blocks ++ s.issued })

/-- What a round of `while(offset < read_size)` leads to. -/
inductive ScanStep where
  | finished
  | next (d : IsoDir)
  | found (dir : IsoDirectoryRecord)
  | enter (dir : IsoDirectoryRecord) (newfilename : List UInt8)

/-- The bytes of a string and the NULs behind it. -/
def stringBytes (string : List UInt8) (i : Nat) : UInt8 := string.getD i 0

/-- The fields that a round looks at lie in the sectors that were loaded. -/
def recordLoaded (d : IsoDir) : Bool :=
  let dir : IsoDirectoryRecord := fun i => d.buffer (d.offset + i)
  let loaded := d.readSize / isoBlocksize * isoBlocksize
  if dir.recordLength = 0 then d.offset + 1 ≤ loaded
  else if dir.named then d.offset + 33 + max 1 (nameBytesRead dir.name dir.nameLen) ≤ loaded
  else d.offset + 34 ≤ loaded

/-- A round of `while(offset < read_size)`. -/
def scanRecord (search : List UInt8) (d : IsoDir) : Except Fault ScanStep :=
  if d.readSize ≤ d.offset then .ok .finished
  else
    let dir : IsoDirectoryRecord := fun i => d.buffer (d.offset + i)
    let dirLength := dir.recordLength
    if dirLength = 0 then
      -- Skip to next sector
      .ok (.next { d with offset := u32 (d.offset + isoBlocksize) / isoBlocksize * isoBlocksize })
    else
      -- the name of the last record is kept for a special one
      let newfilename :=
        if dir.named then d.filename ++ 0x2f :: iso9660NameTranslate dir.name dir.nameLen else d.newfilename
      if dir.named ∧ 1024 < newfilename.length + 1 then .error .nameBuffer
      else if newfilename.length ≤ search.length ∧
          memcmp (stringBytes newfilename) (stringBytes search) search.length = 0 then
        .ok (.found dir)
      else if dir.flags &&& isDir ≠ 0 ∧ 1 < dir.nameLen ∧ newfilename.length < search.length ∧
          memcmp (stringBytes search) (stringBytes newfilename) newfilename.length = 0 ∧
          stringBytes search newfilename.length = 0x2f then
        .ok (.enter dir newfilename)
      else .ok (.next { d with offset := u32 (d.offset + dirLength), newfilename := newfilename })

/-- The value of `read_dir`, the record in `dir_found`, and the state. -/
abbrev DirResult := Except Fault (Nat × IsoDirectoryRecord × CdState)

/-- `while(offset < read_size)` and what follows. The recursive call is the last thing that the loop does, so its
    loop goes on in place of this one; all rounds together are bounded. -/
def readDirLoop (cd : CdRom) (search : List UInt8) :
    Nat → IsoDir → IsoDirectoryRecord → CdState → Option DirResult
  | 0, _, _, _ => none
  | rounds + 1, d, dirFound, s =>
      match scanRecord search d with
      | .error fault => some (.error fault)
      | .ok .finished =>
          some (.ok (0, dirFound, { s with heap := (s.heap.free d.bufferBlock).free d.newfilenameBlock }))
      | .ok (.next d') =>
          readDirLoop cd search rounds d' dirFound { s with fieldsLoaded := s.fieldsLoaded && recordLoaded d }
      | .ok (.found dir) =>
          some (.ok (dir.extent, dirFound.write 0 IsoDirectoryRecord.sizeof dir,
            { s with fieldsLoaded := s.fieldsLoaded && recordLoaded d }))
      | .ok (.enter dir newfilename) =>
          match openDirectory cd dir newfilename { s with fieldsLoaded := s.fieldsLoaded && recordLoaded d } with
          | .error fault => some (.error fault)
          | .ok (d', s) => readDirLoop cd search rounds d' dirFound s

/-- `read_dir`. -/
def readDir (cd : CdRom) (rounds : Nat) (dirRead : IsoDirectoryRecord) (search filename : List UInt8)
    (dirFound : IsoDirectoryRecord) (s : CdState) : Option DirResult :=
  match openDirectory cd dirRead filename s with
  | .error fault => some (.error fault)
  | .ok (d, s) => readDirLoop cd search rounds d dirFound s

/-! ### Files -/

/-- A `char` in a comparison with an unsigned integer. -/
def charToUnsigned (c : UInt8) : Nat := if c.toNat < 128 then c.toNat else 2 ^ 32 - 256 + c.toNat

/-- How many bytes of block `i` are copied. -/
def copyLength (readSize i : Nat) : Nat :=
  if readSize < u32 ((i + 1) * isoBlocksize) then sub32 (u32 (i * isoBlocksize)) readSize else isoBlocksize

/-- The loop of `read_file`, with the blocks that are left. A block that cannot be read is copied as zeros. -/
def readFileLoop (disc : Disc) (readSize buffer tmpbuff : Nat) : Nat → Nat → Nat → Mem → Mem
  | 0, _, _, memory => memory
  | left + 1, i, offset, memory =>
      let memory := memory.fill tmpbuff isoBlocksize 0
      let memory := match disc offset with
        | none => memory
        | some bytes => memory.write tmpbuff isoBlocksize bytes
      readFileLoop disc readSize buffer tmpbuff left (i + 1) (u32 (offset + 1))
        (memory.copy (buffer + i * isoBlocksize) tmpbuff (copyLength readSize i))

/-- The copies to the buffer that such a loop makes, each from where in the buffer on and of how many bytes. -/
def copiesFrom (readSize : Nat) : Nat → Nat → List (Nat × Nat)
  | 0, _ => []
  | left + 1, i => (i * isoBlocksize, copyLength readSize i) :: copiesFrom readSize left (i + 1)

/-- The size that `read_file` takes for that of the file: the comparison is with the first byte of `size`, and the
    limit is used as an address. -/
def fileReadSize (dirRead : IsoDirectoryRecord) (maxBytesToRead : Nat) (memory : Mem) : Nat :=
  if charToUnsigned (dirRead 10) < maxBytesToRead then dirRead.size else memory.loadWord maxBytesToRead

/-- The size, rounded up to blocks. -/
def roundUp (readSize : Nat) : Nat :=
  if readSize ≤ isoBlocksize then isoBlocksize else u32 (readSize + (isoBlocksize - readSize % isoBlocksize))

/-- What `read_file` comes back with: the count that it returns, the copies that it has made to its buffer, the sectors
    that it has asked for, and the heap. -/
structure FileResult where
  bytesRead : Nat
  copies : List (Nat × Nat)
  sectors : List Nat
  heap : Heap

/-- `read_file`. When there is no block for `tmpbuff` the address is 0x100, and the blocks of the file go through the
    memory there. -/
def readFile (disc : Disc) (dirRead : IsoDirectoryRecord) (buffer maxBytesToRead : Nat) (heap : Heap) : FileResult :=
  let (tmpbuff, heap) := malloc heap isoBlocksize
  let bytesRead := fileReadSize dirRead maxBytesToRead heap.mem
  let readSize := roundUp bytesRead
  let blocks := readSize / isoBlocksize
  { bytesRead := bytesRead
    copies := copiesFrom readSize blocks 0
    sectors := sectorsFrom dirRead.extent blocks
    heap := free { heap with mem := readFileLoop disc readSize buffer tmpbuff blocks 0 dirRead.extent heap.mem } tmpbuff }

/-- A 32-bit value that is returned as an `int`. -/
def toInt (n : Nat) : Int := if n < 2 ^ 31 then n else n - 2 ^ 32

/-- Where `root_directory_record` lies in the volume descriptor. -/
def rootDirectoryRecord : Nat := 156

/-- The value of `BootIso9660GetFile` and the state. -/
abbrev GetFileResult := Except Fault (Int × CdState)

/-- `BootIso9660GetFile`. -/
def bootIso9660GetFile (cd : CdRom) (rounds : Nat) (szcPath : List UInt8) (pbaFile dwFileLengthMax : Nat)
    (s : CdState) : Option GetFileResult :=
  match s.heap.malloc isoBlocksize with
  | none => some (.error .noBlock)
  | some (pvd, heap) =>
      match heap.malloc IsoDirectoryRecord.sizeof with
      | none => some (.error .noBlock)
      | some (dir, heap) =>
          let s := { s with heap := heap, issued := 16 :: s.issued }
          let released := fun s : CdState => { s with heap := (s.heap.free pvd).free dir }
          match cd.disc 16 with
          | none => some (.ok (-1, released s))
          | some bytes =>
              let rootd : IsoDirectoryRecord := fun i => bytes (rootDirectoryRecord + i)
              match readDir cd rounds rootd szcPath [] (fun _ => 0) s with
              | none => none
              | some (.error fault) => some (.error fault)
              | some (.ok (offset, dirFound, s)) =>
                  if 0 < offset then
                    let file := readFile cd.disc dirFound pbaFile dwFileLengthMax s.heap.heap
                    some (.ok (toInt file.bytesRead,
                      { s with heap := s.heap.withMem file.heap.mem, issued := file.sectors ++ s.issued }))
                  else
                    -- Not found
                    some (.ok (-1, released s))

end Cromwell.Iso
