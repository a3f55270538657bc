/-
Module: Cromwell.Ide.Requests
Layer: Proofs
Purpose: The requests that a drive gets from the register writes of a read: one, for the one sector that the block
  names, of the drive that was asked for. A drive answers the registers as they stand when the command is written, under
  the rules of that command.
Imports: Cromwell.Ide.Addressing
Trusted boundary: human-reviewed statement (Registers, request, Reaches)
Main exports: Registers, Request, requests, HarddiskInfo.Reaches, read_requests_block
-/
import Cromwell.Ide.Addressing

namespace Cromwell.Ide

/-- The registers of a drive with the one that counts the sectors. -/
structure Registers where
  taskFile : TaskFile
  sectorCount : FifoRegister

def Registers.write (r : Registers) (write : IdeRegister × Nat) : Registers where
  taskFile := r.taskFile.write write
  sectorCount :=
    match write with
    | (.sectorCount, value) => r.sectorCount.write value
    | _ => r.sectorCount

/-- What a drive is asked for. There is no sector when a cylinder, a head and a sector do not name one. -/
structure Request where
  command : Nat
  drive : Nat
  sector : Option Nat
  count : Nat
deriving DecidableEq, Repr

/-- The registers name a sector: heads count from zero and sectors from one. -/
def TaskFile.Names (t : TaskFile) (heads sectorsPerTrack : Nat) : Prop :=
  isExtCommand t.command = true ∨ t.drivehead / 0x40 % 2 = 1 ∨
    (t.drivehead % 16 < heads ∧ 1 ≤ t.sectorNumber.current ∧ t.sectorNumber.current ≤ sectorsPerTrack)

instance (t : TaskFile) (heads sectorsPerTrack : Nat) : Decidable (t.Names heads sectorsPerTrack) :=
  inferInstanceAs (Decidable (_ ∨ _ ∨ _))

/-- The number of sectors: one byte, or two with the previous content; zero stands for the largest number. -/
def Registers.count (r : Registers) : Nat :=
  if isExtCommand r.taskFile.command then
    if r.sectorCount.current + 2 ^ 8 * r.sectorCount.previous = 0 then 2 ^ 16
    else r.sectorCount.current + 2 ^ 8 * r.sectorCount.previous
  else if r.sectorCount.current = 0 then 2 ^ 8
  else r.sectorCount.current

/-- The request of a command, from the registers when it is written. -/
def Registers.request (r : Registers) (heads sectorsPerTrack : Nat) : Request where
  command := r.taskFile.command
  drive := r.taskFile.drivehead / 0x10 % 2
  sector :=
    if r.taskFile.Names heads sectorsPerTrack then some (r.taskFile.sector heads sectorsPerTrack) else none
  count := r.count

/-- The requests of a sequence of register writes: one for each command. -/
def requests (heads sectorsPerTrack : Nat) (r : Registers) : List (IdeRegister × Nat) → List Request
  | [] => []
  | write :: writes =>
    let r := r.write write
    match write.1 with
    | .command => r.request heads sectorsPerTrack :: requests heads sectorsPerTrack r writes
    | _ => requests heads sectorsPerTrack r writes

/-- A drive in LBA mode with any block, or one in CHS mode with a block that has a cylinder, a head and a sector and
    that 28 bits hold. -/
def HarddiskInfo.Reaches (info : HarddiskInfo) (block : Nat) : Prop :=
  info.bLbaMode.toNat = ideDhLba ∨
    info.bLbaMode.toNat = ideDhChs ∧ 1 ≤ info.wCountHeads.toNat ∧ info.wCountHeads.toNat ≤ 16 ∧
      1 ≤ info.wCountSectorsPerTrack.toNat ∧ info.wCountSectorsPerTrack.toNat ≤ 255 ∧
      block < info.wCountHeads.toNat * info.wCountSectorsPerTrack.toNat * 65536 ∧ block < 2 ^ 28

theorem HarddiskInfo.Reaches.valid {info : HarddiskInfo} {block : Nat} (h : info.Reaches block) : info.Valid := by
  cases h with
  | inl hlba => exact Or.inl hlba
  | inr hchs => exact Or.inr ⟨hchs.1, hchs.2.1, hchs.2.2.1, hchs.2.2.2.1, hchs.2.2.2.2.1⟩

/-- What the mode says of a drive in CHS mode. -/
theorem HarddiskInfo.Reaches.of_chs {info : HarddiskInfo} {block : Nat} (h : info.Reaches block)
    (hchs : info.bLbaMode.toNat = ideDhChs) :
    1 ≤ info.wCountHeads.toNat ∧ info.wCountHeads.toNat ≤ 16 ∧ 1 ≤ info.wCountSectorsPerTrack.toNat ∧
      info.wCountSectorsPerTrack.toNat ≤ 255 ∧
      block < info.wCountHeads.toNat * info.wCountSectorsPerTrack.toNat * 65536 ∧ block < 2 ^ 28 :=
  (h.resolve_left fun hlba => absurd (hlba.symm.trans hchs) (by decide)).2

/-! ### The registers of a command -/

/-- The registers when the command is written, each extended one before the one that is current. -/
def issued (command : Nat) (params : IdeCommandParams) : Registers where
  taskFile :=
    { sectorNumber := ⟨params.bSector, params.bSectorExt⟩
      cylinderLsb := ⟨params.wCylinder % 256, params.wCylinderExt % 256⟩
      cylinderMsb := ⟨params.wCylinder / 256, params.wCylinderExt / 256⟩
      drivehead := params.bDrivehead
      command := command }
  sectorCount := ⟨params.bCountSector, params.bCountSectorExt⟩

/-- There is one request, whatever the registers held before. -/
theorem requests_issue (heads sectorsPerTrack : Nat) (r : Registers) (info : HarddiskInfo) (nDriveIndex command : Nat)
    (params : IdeCommandParams) :
    requests heads sectorsPerTrack r (selectDrive info nDriveIndex ++ bootIdeIssueAtaCommand command params) =
      [(issued command params).request heads sectorsPerTrack] := rfl

/-- The bit of the drive is that of its index. -/
theorem drivehead_drive {nDriveIndex x : Nat} (hdrive : nDriveIndex < 2) (hx : x < 16) :
    (ideDhDefault ||| x ||| ideDhDrive nDriveIndex ||| ideDhLba) / 0x10 % 2 = nDriveIndex ∧
      (ideDhDefault ||| x ||| ideDhDrive nDriveIndex ||| ideDhChs) / 0x10 % 2 = nDriveIndex ∧
      (ideDhDrive nDriveIndex ||| ideDhLba) / 0x10 % 2 = nDriveIndex := by
  have hall : ∀ n < 2, ∀ x < 16, (ideDhDefault ||| x ||| ideDhDrive n ||| ideDhLba) / 0x10 % 2 = n ∧
      (ideDhDefault ||| x ||| ideDhDrive n ||| ideDhChs) / 0x10 % 2 = n ∧
      (ideDhDrive n ||| ideDhLba) / 0x10 % 2 = n := by decide
  exact hall nDriveIndex hdrive x hx

/-- Every block selects its drive. -/
theorem sectorParams_drive (info : HarddiskInfo) {nDriveIndex : Nat} (hdrive : nDriveIndex < 2) (block : Nat) :
    (sectorParams info nDriveIndex block).bDrivehead / 0x10 % 2 = nDriveIndex := by
  unfold sectorParams
  dsimp only
  split
  · exact (drivehead_drive hdrive (show 0 < 16 by decide)).2.2
  · split
    · exact (drivehead_drive hdrive (Nat.mod_lt _ (by decide))).2.1
    · exact (drivehead_drive hdrive (Nat.mod_lt _ (by decide))).1

/-- Every block asks for one sector. -/
theorem sectorParams_count (info : HarddiskInfo) (nDriveIndex block : Nat) :
    (sectorParams info nDriveIndex block).bCountSector = 1 ∧
      (sectorParams info nDriveIndex block).bCountSectorExt = 0 := by
  unfold sectorParams
  dsimp only
  split
  · exact ⟨rfl, rfl⟩
  · split <;> exact ⟨rfl, rfl⟩

/-- A block in CHS mode has a head of the drive and a sector of the track. -/
theorem sectorParams_names {info : HarddiskInfo} {block : Nat} (reaches : info.Reaches block) (nDriveIndex : Nat)
    (small : block < 0x10000000) (command : Nat) :
    (issued command (sectorParams info nDriveIndex block)).taskFile.Names info.wCountHeads.toNat
      info.wCountSectorsPerTrack.toNat := by
  rw [issued, sectorParams, if_neg (by omega)]
  by_cases hchs : info.bLbaMode.toNat = ideDhChs
  · obtain ⟨hheads, hheads16, hspt, hspt255, -, -⟩ := reaches.of_chs hchs
    have hhead : block / info.wCountSectorsPerTrack.toNat % info.wCountHeads.toNat < info.wCountHeads.toNat :=
      Nat.mod_lt _ hheads
    have hsector : block % info.wCountSectorsPerTrack.toNat < info.wCountSectorsPerTrack.toNat := Nat.mod_lt _ hspt
    obtain ⟨-, -, hlow, -⟩ := drivehead_parts nDriveIndex
      (Nat.lt_of_lt_of_le hhead hheads16 : block / info.wCountSectorsPerTrack.toNat % info.wCountHeads.toNat < 16)
    rw [if_pos hchs, TaskFile.Names]
    dsimp only
    rw [ideDhHead, Nat.mod_eq_of_lt (Nat.lt_of_lt_of_le hhead hheads16), hlow]
    exact Or.inr (Or.inr ⟨hhead, by omega, by omega⟩)
  · obtain ⟨-, hflag, -, -⟩ := drivehead_parts nDriveIndex (Nat.mod_lt (block / 2 ^ 24) (show 0 < 16 by decide))
    rw [if_neg hchs]
    exact Or.inr (Or.inl hflag)

/-- For every drive and every block of its mode, whatever the registers held before: a read makes one request, of that
    drive, for that block and for one sector. -/
theorem read_requests_block (info : HarddiskInfo) {nDriveIndex : Nat} (hdrive : nDriveIndex < 2) (r : Registers)
    {block : Nat} (bound : block < 2 ^ 32) (reaches : info.Reaches block) :
    requests info.wCountHeads.toNat info.wCountSectorsPerTrack.toNat r (bootIdeReadSector info nDriveIndex block) =
      [{ command := if block < 2 ^ 28 then ideCmdReadMultiRetry else ideCmdReadExt
         drive := nDriveIndex
         sector := some block
         count := 1 }] := by
  obtain ⟨hcount, hcountExt⟩ := sectorParams_count info nDriveIndex block
  rw [bootIdeReadSector, requests_issue, Registers.request, Registers.count]
  by_cases hsmall : block < 2 ^ 28
  · have hsector := sector_small reaches.valid nDriveIndex r.taskFile (fun hchs => (reaches.of_chs hchs).2.2.2.2.1)
      hsmall (show isExtCommand ideCmdReadMultiRetry = false from rfl)
    rw [addressedSector, issue_taskFile] at hsector
    rw [if_neg (by omega : ¬ 0x10000000 ≤ block), if_pos hsmall,
      if_pos (sectorParams_names reaches nDriveIndex hsmall ideCmdReadMultiRetry)]
    simp only [issued, sectorParams_drive info hdrive, hcount, hsector]
    rfl
  · have hsector := sector_ext info nDriveIndex r.taskFile (show 0x10000000 ≤ block by omega) bound
    rw [addressedSector, bootIdeReadSector, if_pos (by omega : 0x10000000 ≤ block), issue_taskFile] at hsector
    have hnames : (issued ideCmdReadExt (sectorParams info nDriveIndex block)).taskFile.Names info.wCountHeads.toNat
        info.wCountSectorsPerTrack.toNat := Or.inl rfl
    rw [if_pos (by omega : 0x10000000 ≤ block), if_neg hsmall, if_pos hnames]
    simp only [issued, sectorParams_drive info hdrive, hcount, hcountExt, hsector]
    rfl

/-- A disk in CHS mode. -/
def oldDisk : HarddiskInfo := ⟨16, 1024, 63, 0, 0x00⟩

/-- The last sector of the last cylinder of its first 1024. -/
theorem read_requests_block_chs :
    oldDisk.Reaches 0xfbfff ∧
      requests 16 63 ⟨clearedTaskFile, ⟨0, 0⟩⟩ (bootIdeReadSector oldDisk 1 0xfbfff) = [⟨0x20, 1, some 0xfbfff, 1⟩] := by
  have hreaches : oldDisk.Reaches 0xfbfff := Or.inr ⟨rfl, by decide⟩
  exact ⟨hreaches, read_requests_block oldDisk (by decide) ⟨clearedTaskFile, ⟨0, 0⟩⟩ (by decide) hreaches⟩

end Cromwell.Ide
