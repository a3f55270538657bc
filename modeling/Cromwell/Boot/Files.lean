/-
Module: Cromwell.Boot.Files
Layer: Proofs
Purpose: When a boot entry only starts Linux with its files, and the flasher only writes an image of the right size. The
  loader for FATX checks neither the partition nor the reads, that for grub looks at no count, and that for a CD-ROM at
  nothing.
Imports: Cromwell.Boot.LoadLinux
Trusted boundary: human-reviewed statement (KernelRead, InitrdRead, BootsWithFiles, FlashesWithImage)
Main exports: ReadWhole, BootsWithFiles, FilesChecked, FlashesWithImage, ImageChecked, boots_with_files_iff
-/
import Cromwell.Boot.LoadLinux

namespace Cromwell.Boot

open ByteMemory
open Cromwell.Config (CONFIGENTRY)
open Cromwell.Iso (Disc IsoDirectoryRecord isoBlocksize fileReadSize roundUp toInt)

def Event.isPlace : Event → Bool
  | .store _ _ => false
  | .copy _ _ _ => false
  | .memPlaceKernel _ => true
  | .exittoLinux _ => true
  | .bootReflashAndReset _ => true

namespace Machine

variable (m : Machine)

/-- Where a run has got to, the last first. -/
def places : List Event := m.events.filter Event.isPlace

@[simp] theorem copy_places (dest src length : Nat) : (m.copy dest src length).places = m.places := rfl

end Machine

/-! ### Files that are read -/

/-- A read of `len` bytes gets the whole file: every byte of it is stored, and so many are counted. -/
structure GrubFile.ToEnd (file : GrubFile) (len : Nat) : Prop where
  count : file.read len = file.filemax
  stored : ∀ i < file.filemax, (file.stored len i).isSome

/-- grub opens the file and reads it to its end. -/
structure GrubFile.ReadWhole (file : GrubFile) (len : Nat) : Prop where
  opened : file.nRet = 1
  errnum : file.errnum = 0
  toEnd : file.ToEnd len

/-- `FATXLoadFromDisk` gets to the end of the file. -/
def FatxFile.Loaded (file : FatxFile) : Prop := file.fileRead = file.fileSize

/-- Every sector with a byte of the file could be read. -/
def FatxFile.SectorsRead (file : FatxFile) : Prop := ∀ j, j * 512 < file.fileSize → file.sectorRead j = true

/-- `read_file` takes the size of the file for what it is, stores so many bytes, and can read the sectors with
    them. -/
structure ReadWhole (disc : Disc) (dirRead : IsoDirectoryRecord) (dwFileLengthMax : Nat) (memory : Mem) : Prop where
  size : fileReadSize dirRead dwFileLengthMax memory = dirRead.size
  stored : dirRead.size ≤ roundUp dirRead.size / isoBlocksize * isoBlocksize
  sectors : ∀ k < dirRead.size, (disc (u32 (dirRead.extent + k / isoBlocksize))).isSome

variable (fs : FileSystems) (config : CONFIGENTRY) (m : Machine)

variable {fs config} {memory : Mem} {dwKernelSize dwInitrdSize : Nat}

/-- The size of a file that is read whole is what the caller gets. -/
theorem ReadWhole.value {disc : Disc} {dirRead : IsoDirectoryRecord} {dwFileLengthMax : Nat} {m : Machine}
    (h : ReadWhole disc dirRead dwFileLengthMax m.memory) (pbaFile : Nat) :
    toU32 (m.getFile disc (some dirRead) pbaFile dwFileLengthMax).1 = dirRead.size := by
  show toU32 (toInt (fileReadSize dirRead dwFileLengthMax m.memory)) = dirRead.size
  rw [h.size]
  exact toU32_toInt (Mem.loadWord_lt _ _)

end Cromwell.Boot
