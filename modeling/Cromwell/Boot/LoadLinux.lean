/-
Module: Cromwell.Boot.LoadLinux
Layer: Model
Purpose: The loaders of `boot/LoadLinux.c` and their callers: what they ask the three file systems for, which bytes they
  store at the fixed addresses of the memory map, and how far they come. The file systems are given by what their calls
  come back with; of a CD-ROM that is the directory record of the file, which `read_file` makes its own use of.
Imports: Cromwell.Fatx.LoadConfig, Cromwell.Iso.GetFile
Trusted boundary: reviewed against src/boot/LoadLinux.c, src/menu/actions/MenuActions.c, src/fs/fatx/BootFATX.c and
  src/include/memory_layout.h
Main exports: FileSystems, Machine, memPlaceKernel, loadConfigNative, loadKernelNative, loadKernelFatX,
  loadKernelCdrom, bootMenuEntry, bootLoadFlashCD, bootIso9660GetFile_outcome
-/
import Cromwell.Fatx.LoadConfig
import Cromwell.Iso.GetFile

namespace Cromwell.Boot

open ByteMemory
open Cromwell.Config (CONFIGENTRY parseConfig)
open Cromwell.Iso (Disc CdRom CdState IsoDirectoryRecord isoBlocksize fileReadSize roundUp roundUp_whole extentByte
  readFile_bytesRead readFile_mem toInt bootIso9660GetFile bootIso9660GetFile_blocks bootIso9660GetFile_ok_iff delivered
  readDir_mem_below free_mem_below Descriptors)
open Cromwell.MemoryManager (Heap memoryManagerStart malloc malloc_below)

/-! ### The memory map -/

/-- `RAMSIZE`. -/
def ramsize : Nat := 64 * 1024 * 1024

/-- `KERNEL_SETUP`. -/
def kernelSetup : Nat := 0x90000

/-- `GDT_LOC`. -/
def gdtLoc : Nat := 0xA0000

/-- `KERNEL_PM_CODE`. -/
def kernelPmCode : Nat := 0x00100000

/-- `KERNEL_PM_CODE_END`. -/
def kernelPmCodeEnd : Nat := 0x00900000

/-- `INITRD_START`. -/
def initrdStart : Nat := kernelPmCodeEnd

/-- `MAX_INITRD_END`. -/
def maxInitrdEnd : Nat := 0x02A00000

/-- `MAX_KERNEL_SIZE`. -/
def maxKernelSize : Nat := kernelPmCodeEnd - kernelPmCode

/-- `MAX_INITRD_SIZE`. -/
def maxInitrdSize : Nat := maxInitrdEnd - initrdStart

/-- `MAX_CONFIG_FILESIZE`. -/
def maxConfigFilesize : Nat := 1024 * 256

/-! ### The file systems -/

/-- What `grub_open` and `grub_read` come back with for a file: the result, `errnum` and `filemax`, and for a read of so
    many bytes the count that is returned and the bytes that are stored, by their offset. The count does not tell the
    bytes: when a block cannot be read, the count is 0 and the other blocks are stored. -/
structure GrubFile where
  nRet : Int
  errnum : Nat
  filemax : Nat
  read : Nat → Nat
  stored : Nat → Nat → Option UInt8
  read_le : ∀ len, read len ≤ len
  stored_lt : ∀ len i, (stored len i).isSome → i < len

namespace GrubFile

variable (file : GrubFile)

/-- The offsets that a read of `len` bytes stores to. -/
@[irreducible] def offsets (len : Nat) : List Nat := (List.range len).filter fun i => (file.stored len i).isSome

theorem mem_offsets {len i : Nat} : i ∈ file.offsets len ↔ (file.stored len i).isSome := by
  rw [offsets, List.mem_filter, List.mem_range]
  exact and_iff_right_of_imp (file.stored_lt len i)

/-- The memory after a read of `len` bytes to `buf`. -/
def readOver (buf len : Nat) (memory : Mem) : Mem :=
  fun x => if x < buf then memory x else (file.stored len (x - buf)).getD (memory x)

theorem readOver_buf (buf len : Nat) (memory : Mem) (i : Nat) :
    file.readOver buf len memory (buf + i) = (file.stored len i).getD (memory (buf + i)) := by
  rw [readOver, if_neg (Nat.not_lt.mpr (Nat.le_add_right buf i)), Nat.add_sub_cancel_left]

end GrubFile

/-- A file that `FATXFindFile` finds, how much of it `FATXLoadFromDisk` stores, and which of its sectors could be read:
    `LoadFATXCluster` only reports a read that fails. -/
structure FatxFile where
  fileSize : Nat
  fileRead : Nat
  bytes : Nat → UInt8
  sectorRead : Nat → Bool
  fileSize_lt : fileSize < 2 ^ 32
  fileRead_le : fileRead ≤ fileSize

/-- What the calls of a run come back with, by their number and the name of the file; `partition` says whether
    `OpenFATXPartition` gives one, `record` is what the directories of the CD-ROM hold under a name, and `heapString`
    is the string that the heap holds so far behind `szGrub`. -/
structure FileSystems where
  grub : Nat → List UInt8 → GrubFile
  heapString : Nat → List UInt8
  partition : Bool
  fatx : Nat → List UInt8 → Option FatxFile
  disc : Disc
  record : Nat → List UInt8 → Option IsoDirectoryRecord

theorem nothing_stored (len i : Nat) (h : (none : Option UInt8).isSome = true) : i < len := by
  cases h

/-- Media without a file. -/
def emptyMedia : FileSystems where
  grub := fun _ _ => ⟨0, 15, 0, fun _ => 0, fun _ _ => none, Nat.zero_le, nothing_stored⟩
  heapString := fun _ => []
  partition := false
  fatx := fun _ _ => none
  disc := fun _ => none
  record := fun _ _ => none

/-- The name that `grub_open` sees behind `strncpy(&szGrub[4], name, strlen(name))`: the NUL is one of the bytes that
    `memset` has cleared, if the name is not too long. -/
def FileSystems.szGrub (fs : FileSystems) (name : List UInt8) : List UInt8 :=
  if name.length < 256 then name else name ++ fs.heapString (4 + name.length)

/-- "/boot/linuxboot.cfg" -/
def bootLinuxbootCfg : List UInt8 := [0x2f, 0x62, 0x6f, 0x6f, 0x74] ++ Fatx.linuxbootCfg

/-- What a run does: it stores bytes at a fixed address, copies them there, and gets to the places that start
    something. -/
inductive Event where
  | store (address length : Nat)
  | copy (dest src length : Nat)
  | memPlaceKernel (kernelSize : Nat)
  | exittoLinux (dwInitrdSize : Nat)
  | bootReflashAndReset (dwConfigSize : Nat)
deriving DecidableEq

/-- The memory, the two static sizes, and what has been done, the last first. -/
structure Machine where
  memory : Mem
  dwKernelSize : Nat
  dwInitrdSize : Nat
  events : List Event

namespace Machine

/-- The machine before a run. -/
def start (memory : Mem) (dwKernelSize dwInitrdSize : Nat) : Machine := ⟨memory, dwKernelSize, dwInitrdSize, []⟩

variable (m : Machine)

def event (e : Event) : Machine := { m with events := e :: m.events }

/-- Store bytes from a fixed address on. -/
def store (address length : Nat) (bytes : Nat → UInt8) : Machine :=
  { m with memory := m.memory.write address length bytes, events := .store address length :: m.events }

/-- `memcpy` to a fixed address. -/
def copy (dest src length : Nat) : Machine :=
  { m with memory := m.memory.copy dest src length, events := .copy dest src length :: m.events }

/-- `memPlaceKernel`. -/
def memPlaceKernel (kernelOrg kernelSize : Nat) : Machine :=
  let nSizeHeader := ((m.memory (kernelOrg + 0x01f1)).toNat + 1) * 512
  ((m.event (.memPlaceKernel kernelSize)).copy kernelSetup kernelOrg nSizeHeader).copy kernelPmCode
    (kernelOrg + nSizeHeader) (sub32 kernelSize nSizeHeader)

/-- `grub_read`. -/
def grubRead (file : GrubFile) (buf len : Nat) : Machine :=
  { m with
    memory := file.readOver buf len m.memory
    events := (file.offsets len).map (fun i => .store (buf + i) 1) ++ m.events }

/-- `LoadFATXFilefixed`: the size of a file that was loaded. -/
def loadFATXFilefixed (file : Option FatxFile) (position : Nat) : Option Nat × Machine :=
  match file with
  | none => (none, m)
  | some file =>
      let m := m.store position file.fileSize fun _ => 0xff
      let m := m.store position file.fileRead file.bytes
      if file.fileRead = file.fileSize then (some file.fileSize, m) else (none, m)

/-- `BootIso9660GetFile`, by the record that its search ends with. -/
def getFile (disc : Disc) (record : Option IsoDirectoryRecord) (pbaFile dwFileLengthMax : Nat) : Int × Machine :=
  match record with
  | none => (-1, m)
  | some dirRead =>
      let bytesRead := fileReadSize dirRead dwFileLengthMax m.memory
      let blocks := roundUp bytesRead / isoBlocksize
      (toInt bytesRead, m.store pbaFile (blocks * isoBlocksize) (extentByte disc dirRead.extent))

end Machine

/-- An `int` that is assigned to a `u32`. -/
def toU32 (value : Int) : Nat := (value % 2 ^ 32).toNat

theorem toU32_toInt {n : Nat} (h : n < 2 ^ 32) : toU32 (toInt n) = n := by
  rw [toU32, toInt]
  split
  case isTrue => omega
  case isFalse => omega

/-! ### The loaders -/

/-- A loader stays in `while(1)`, or it returns a value. -/
inductive Ending where
  | halted
  | returned (value : Int)
deriving DecidableEq

variable (fs : FileSystems)

/-- `LoadConfigNative`: the entries, none for `NULL`. A store of `ParseConfig` behind the setup area is a fault. -/
def loadConfigNative (drive partition : Int) (m : Machine) : Except Config.Fault (List CONFIGENTRY) × Machine :=
  let m := m.store kernelSetup 2048 fun _ => 0
  -- Try for /boot/linuxboot.cfg first
  let file := fs.grub 0 bootLinuxbootCfg
  -- Not found - try /linuxboot.cfg
  let file := if file.nRet ≠ 1 ∨ file.errnum ≠ 0 then fs.grub 1 Fatx.linuxbootCfg else file
  if file.nRet ≠ 1 ∨ file.errnum ≠ 0 then (.ok [], m)
  else
    let nLen := file.read file.filemax
    let m := m.grubRead file kernelSetup file.filemax
    let nLen := if maxConfigFilesize < nLen then maxConfigFilesize else nLen
    match parseConfig (gdtLoc - kernelSetup) none (m.memory.bytesFrom kernelSetup (ramsize - kernelSetup)) nLen with
    | .error fault => (.error fault, m)
    | .ok (entries, text) =>
        (.ok (entries.map fun entry => { entry with bootType := .native, drive := drive, partition := partition }),
          { m with memory := m.memory.write kernelSetup (ramsize - kernelSetup) fun i => text.getD i 0 })

/-- `LoadKernelNative`. -/
def loadKernelNative (config : CONFIGENTRY) (m : Machine) : Ending × Machine :=
  let m := m.store kernelSetup 2048 fun _ => 0
  let kernel := fs.grub 0 (fs.szGrub config.szKernel.string)
  if kernel.nRet ≠ 1 then (.halted, m)
  else
    -- Use INITRD_START as temporary location for loading the Kernel
    let m := { m.grubRead kernel initrdStart maxKernelSize with dwKernelSize := kernel.read maxKernelSize }
    let m := m.memPlaceKernel initrdStart m.dwKernelSize
    if config.szInitrd.string.length ≠ 0 then
      -- here `strncpy` copies as many bytes as the array has, with the NUL
      let initrd := fs.grub 1 config.szInitrd.string
      if initrd.filemax = 0 then (.halted, m)
      else if initrd.nRet ≠ 1 ∨ initrd.errnum ≠ 0 then (.halted, m)
      else (.returned 1, { m.grubRead initrd initrdStart maxInitrdSize with dwInitrdSize := initrd.read maxInitrdSize })
    else (.returned 1, { m with dwInitrdSize := 0 })

/-- `LoadKernelFatX`. -/
def loadKernelFatX (config : CONFIGENTRY) (m : Machine) : Ending × Machine :=
  let m := m.store kernelSetup 4096 fun _ => 0
  if !fs.partition then (.returned 0, m)
  else
    match m.loadFATXFilefixed (fs.fatx 0 config.szKernel.string) initrdStart with
    | (none, m) => (.halted, m)
    | (some fileSize, m) =>
        let m := { m with dwKernelSize := fileSize }
        -- moving the kernel to its final location
        let m := m.memPlaceKernel initrdStart m.dwKernelSize
        if config.szInitrd.string.length ≠ 0 then
          match m.loadFATXFilefixed (fs.fatx 1 config.szInitrd.string) initrdStart with
          | (none, m) => (.halted, m)
          | (some fileSize, m) => (.returned 1, { m with dwInitrdSize := fileSize })
        else (.returned 1, { m with dwInitrdSize := 0 })

/-- `LoadKernelCdrom` as far as `memPlaceKernel`. -/
def placeKernelCdrom (config : CONFIGENTRY) (m : Machine) : Ending × Machine :=
  let (value, m) := m.getFile fs.disc (fs.record 0 config.szKernel.string) initrdStart maxKernelSize
  let m := { m with dwKernelSize := toU32 value }
  -- the comparison is of an unsigned integer
  if m.dwKernelSize < 0 then (.halted, m)
  else (.returned 1, m.memPlaceKernel initrdStart m.dwKernelSize)

/-- `LoadKernelCdrom`. -/
def loadKernelCdrom (config : CONFIGENTRY) (m : Machine) : Ending × Machine :=
  match placeKernelCdrom fs config m with
  | (.halted, m) => (.halted, m)
  | (.returned _, m) =>
      if config.szInitrd.string.length ≠ 0 then
        let (value, m) := m.getFile fs.disc (fs.record 1 config.szInitrd.string) initrdStart maxInitrdSize
        let m := { m with dwInitrdSize := toU32 value }
        if m.dwInitrdSize < 0 then (.halted, m) else (.returned 1, m)
      else (.returned 1, { m with dwInitrdSize := 0 })

/-- The loader for the boot type of an entry. -/
def loadKernel (config : CONFIGENTRY) (m : Machine) : Ending × Machine :=
  match config.bootType with
  | .cdrom => loadKernelCdrom fs config m
  | .fatx => loadKernelFatX fs config m
  | .native => loadKernelNative fs config m

/-- `ExittoLinux` is reached. -/
def exittoLinux (m : Machine) : Machine := m.event (.exittoLinux m.dwInitrdSize)

/-- The word behind a limit is apart from the places that `malloc` writes to. -/
def LimitApart (dwFileLengthMax : Nat) : Prop :=
  dwFileLengthMax + 4 ≤ 0xF8 ∨ 0x100 ≤ dwFileLengthMax ∧ dwFileLengthMax + 4 ≤ memoryManagerStart

theorem fileReadSize_malloc {heap : Heap} (start : heap.memoryManagerStartAddress = memoryManagerStart)
    {dwFileLengthMax : Nat} (hlimit : LimitApart dwFileLengthMax) (dirRead : IsoDirectoryRecord) {memory : Mem}
    (hmemory : ∀ x < memoryManagerStart, memory x = heap.mem x) :
    fileReadSize dirRead dwFileLengthMax (malloc heap isoBlocksize).2.mem =
      fileReadSize dirRead dwFileLengthMax memory := by
  have hapart : ∀ x, dwFileLengthMax ≤ x → x < dwFileLengthMax + 4 →
      x < memoryManagerStart ∧ ¬ (0xF8 ≤ x ∧ x < 0x100) := by
    intro x lo hi
    rw [LimitApart] at hlimit
    have harena : memoryManagerStart = 0x02A00000 := rfl
    omega
  have hword : (malloc heap isoBlocksize).2.mem.loadWord dwFileLengthMax = memory.loadWord dwFileLengthMax := by
    apply Mem.loadWord_congr
    intro x lo hi
    obtain ⟨harena, hheader⟩ := hapart x lo hi
    exact (malloc_below start _ harena hheader).trans (hmemory x harena).symm
  rw [fileReadSize, fileReadSize, hword]

/-- Whatever `BootIso9660GetFile` comes back with, its search has ended with a record or without one, and the memory
    between the first pages and the arena is as the machine has it. -/
theorem bootIso9660GetFile_outcome {cd : CdRom} {szcPath : List UInt8} {rounds pbaFile dwFileLengthMax : Nat}
    {s s' : CdState} {value : Int}
    (h : bootIso9660GetFile cd rounds szcPath pbaFile dwFileLengthMax s = some (.ok (value, s')))
    (hlimit : LimitApart dwFileLengthMax) (m : Machine)
    (hm : ∀ x < memoryManagerStart, m.memory x = s.heap.heap.mem x) :
    ∃ record, (m.getFile cd.disc record pbaFile dwFileLengthMax).1 = value ∧
      ∀ x, 0x900 ≤ x → x < memoryManagerStart →
        (m.getFile cd.disc record pbaFile dwFileLengthMax).2.memory x = s'.heap.heap.mem x := by
  rcases bootIso9660GetFile_blocks cd szcPath pbaFile dwFileLengthMax s with hnone | ⟨pvd, dir, blocks⟩
  · rw [hnone] at h
    cases h
  obtain ⟨-, hcase⟩ | ⟨bytes, found, -, ⟨rounds', hfound⟩, hdelivered⟩ :=
    (bootIso9660GetFile_ok_iff blocks).mp ⟨rounds, h⟩
  · cases hcase
    refine ⟨none, rfl, fun x _ hx => ?_⟩
    rw [Machine.getFile, hm x hx]
    exact ((free_mem_below _ _ hx).trans ((free_mem_below _ _ hx).trans (blocks.mem_below hx))).symm
  · rcases found with fault | ⟨offset, dirFound, s₁⟩
    · cases hdelivered
    have hwalk : ∀ x < memoryManagerStart, m.memory x = s₁.heap.heap.mem x := by
      intro x hx
      rw [hm x hx, readDir_mem_below hfound hx, blocks.mem_below hx]
    rw [delivered] at hdelivered
    split at hdelivered
    case isFalse =>
      cases hdelivered
      refine ⟨none, rfl, fun x _ hx => ?_⟩
      rw [Machine.getFile, hwalk x hx]
      exact ((free_mem_below _ _ hx).trans (free_mem_below _ _ hx)).symm
    case isTrue =>
      cases hdelivered
      have hsize := fileReadSize_malloc s₁.heap.start hlimit dirFound hwalk
      refine ⟨some dirFound, ?_, fun x hlow hx => ?_⟩
      · rw [readFile_bytesRead, hsize]
        rfl
      · dsimp only [Machine.getFile, Machine.store]
        rw [Cromwell.MemoryManager.ClientHeap.withMem_mem, readFile_mem _ _ _ _ s₁.heap.start hlow hx, hsize,
          roundUp_whole, Mem.write, Mem.write, hwalk x hx]

end Cromwell.Boot
