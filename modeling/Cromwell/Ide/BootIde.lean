/-
Module: Cromwell.Ide.BootIde
Layer: Model
Purpose: How `BootIdeReadSector` and `BootIdeWriteSector` of `drivers/ide/BootIde.c` address a sector of a hard disk: the
  parameters they choose, the registers that `BootIdeIssueAtaCommand` writes, and the drive's reading of them. The
  status registers and the data transfer come after the command and have no part in it; an ATAPI drive goes another
  way and is not modelled.
Imports: Mathlib
Trusted boundary: reviewed against src/drivers/ide/BootIde.c, BootIde.h and src/include/boot.h
Main exports: HarddiskInfo, IdeCommandParams, bootIdeReadSector, bootIdeWriteSector, TaskFile, addressedSector
-/
import Mathlib

namespace Cromwell.Ide

/-- The part of `tsHarddiskInfo` that addressing looks at; the counts are of the types of the source. -/
structure HarddiskInfo where
  wCountHeads : UInt16
  wCountCylinders : UInt16
  wCountSectorsPerTrack : UInt16
  dwCountSectorsTotal : UInt32
  bLbaMode : UInt8

/-- `tsIdeCommandParams` without the write precompensation, which is never sent. Every field has the width of its
    C type. -/
structure IdeCommandParams where
  bCountSector : Nat
  bSector : Nat
  wCylinder : Nat
  bDrivehead : Nat
  bCountSectorExt : Nat
  bSectorExt : Nat
  wCylinderExt : Nat

def ideDhDefault : Nat := 0xa0
def ideDhLba : Nat := 0x40
def ideDhChs : Nat := 0x00
def ideDhHead (x : Nat) : Nat := x % 16
def ideDhDrive (nDriveIndex : Nat) : Nat := if nDriveIndex % 2 ≠ 0 then 0x10 else 0x00

/-- `IDE_DEFAULT_COMMAND`. -/
def ideDefaultCommand : IdeCommandParams := ⟨0x01, 0x00, 0x0000, ideDhDefault ||| 0x10, 0, 0, 0⟩

/-- `IDE_CMD_READ_MULTI_RETRY`, `IDE_CMD_READ_EXT` and `IDE_CMD_WRITE_MULTI_RETRY`. -/
def ideCmdReadMultiRetry : Nat := 0x20
def ideCmdReadExt : Nat := 0x24
def ideCmdWriteMultiRetry : Nat := 0x30

/-- The registers behind the port base. -/
inductive IdeRegister where
  | sectorCount
  | sectorNumber
  | cylinderLsb
  | cylinderMsb
  | drivehead
  | command
  | control
deriving DecidableEq, Repr

/-- The parameters for a block, which the two routines choose alike. -/
def sectorParams (info : HarddiskInfo) (nDriveIndex block : Nat) : IdeCommandParams :=
  let tsicp := { ideDefaultCommand with bCountSector := 1 }
  if 0x10000000 ≤ block then
    { tsicp with
      bCountSectorExt := 0
      wCylinderExt := 0
      bSectorExt := block / 2 ^ 24 % 256
      wCylinder := block / 2 ^ 8 % 2 ^ 16
      bSector := block % 256
      bDrivehead := ideDhDrive nDriveIndex ||| ideDhLba }
  else if info.bLbaMode.toNat = ideDhChs then
    let track := block / info.wCountSectorsPerTrack.toNat
    { tsicp with
      bSector := (1 + block % info.wCountSectorsPerTrack.toNat) % 256
      wCylinder := track / info.wCountHeads.toNat % 2 ^ 16
      bDrivehead := ideDhDefault ||| ideDhHead (track % info.wCountHeads.toNat) ||| ideDhDrive nDriveIndex ||| ideDhChs }
  else
    { tsicp with
      bSector := block % 256
      wCylinder := block / 2 ^ 8 % 2 ^ 16
      bDrivehead := ideDhDefault ||| block / 2 ^ 24 % 16 ||| ideDhDrive nDriveIndex ||| ideDhLba }

/-- `BootIdeIssueAtaCommand`: the register writes in order. -/
def bootIdeIssueAtaCommand (command : Nat) (params : IdeCommandParams) : List (IdeRegister × Nat) :=
  [ (.sectorCount, params.bCountSectorExt), (.sectorNumber, params.bSectorExt),
    (.cylinderLsb, params.wCylinderExt % 256), (.cylinderMsb, params.wCylinderExt / 256),
    (.sectorCount, params.bCountSector), (.sectorNumber, params.bSector),
    (.cylinderLsb, params.wCylinder % 256), (.cylinderMsb, params.wCylinder / 256),
    (.drivehead, params.bDrivehead), (.command, command) ]

/-- What both routines write before the command: the drive is selected, and the control register set. -/
def selectDrive (info : HarddiskInfo) (nDriveIndex : Nat) : List (IdeRegister × Nat) :=
  [ (.drivehead, ideDhDefault ||| ideDhHead 0 ||| ideDhChs ||| ideDhDrive nDriveIndex),
    (.control, if 8 < info.wCountHeads.toNat then 0x0a else 0x02) ]

/-- `BootIdeReadSector` up to its command, for an existing hard disk. -/
def bootIdeReadSector (info : HarddiskInfo) (nDriveIndex block : Nat) : List (IdeRegister × Nat) :=
  selectDrive info nDriveIndex ++
    bootIdeIssueAtaCommand (if 0x10000000 ≤ block then ideCmdReadExt else ideCmdReadMultiRetry)
      (sectorParams info nDriveIndex block)

/-- `BootIdeWriteSector` up to its command. The command is the same for every block. -/
def bootIdeWriteSector (info : HarddiskInfo) (nDriveIndex block : Nat) : List (IdeRegister × Nat) :=
  selectDrive info nDriveIndex ++
    bootIdeIssueAtaCommand ideCmdWriteMultiRetry (sectorParams info nDriveIndex block)

/-! ### The drive -/

/-- A register with its previous content. -/
structure FifoRegister where
  current : Nat
  previous : Nat

def FifoRegister.write (r : FifoRegister) (value : Nat) : FifoRegister := ⟨value, r.current⟩

/-- The registers of a drive that take part in addressing, and the command that was given last. -/
structure TaskFile where
  sectorNumber : FifoRegister
  cylinderLsb : FifoRegister
  cylinderMsb : FifoRegister
  drivehead : Nat
  command : Nat

/-- A register write as the drive takes it. -/
def TaskFile.write (t : TaskFile) : IdeRegister × Nat → TaskFile
  | (.sectorNumber, value) => { t with sectorNumber := t.sectorNumber.write value }
  | (.cylinderLsb, value) => { t with cylinderLsb := t.cylinderLsb.write value }
  | (.cylinderMsb, value) => { t with cylinderMsb := t.cylinderMsb.write value }
  | (.drivehead, value) => { t with drivehead := value }
  | (.command, value) => { t with command := value }
  | (.sectorCount, _) => t
  | (.control, _) => t

/-- The commands with 48-bit addresses: READ SECTORS EXT and WRITE SECTORS EXT. -/
def isExtCommand (command : Nat) : Bool := command == 0x24 || command == 0x34

/-- The sector that the drive accesses: a 48-bit address with the previous contents, a 28-bit address, or a cylinder,
    a head and a sector counted from one. -/
def TaskFile.sector (t : TaskFile) (heads sectorsPerTrack : Nat) : Nat :=
  if isExtCommand t.command then
    t.sectorNumber.current + 2 ^ 8 * t.cylinderLsb.current + 2 ^ 16 * t.cylinderMsb.current +
      2 ^ 24 * t.sectorNumber.previous + 2 ^ 32 * t.cylinderLsb.previous + 2 ^ 40 * t.cylinderMsb.previous
  else if t.drivehead / 0x40 % 2 = 1 then
    t.sectorNumber.current + 2 ^ 8 * t.cylinderLsb.current + 2 ^ 16 * t.cylinderMsb.current +
      2 ^ 24 * (t.drivehead % 16)
  else
    ((t.cylinderLsb.current + 2 ^ 8 * t.cylinderMsb.current) * heads + t.drivehead % 16) * sectorsPerTrack +
      t.sectorNumber.current - 1

/-- The sector that a sequence of register writes leads to, from any earlier contents of the registers. -/
def addressedSector (info : HarddiskInfo) (t : TaskFile) (writes : List (IdeRegister × Nat)) : Nat :=
  (writes.foldl TaskFile.write t).sector info.wCountHeads.toNat info.wCountSectorsPerTrack.toNat

end Cromwell.Ide
