/-
Module: Cromwell.Ide.Addressing
Layer: Proofs
Purpose: The sectors that reading and writing a block address. Both routines choose the same parameters, and the drive
  reads them back as the block as long as the command is of their kind; a write of a block beyond 28 bits issues a
  28-bit command for 48-bit parameters.
Imports: Cromwell.Ide.BootIde
Trusted boundary: human-reviewed statement (Valid, Holds)
Main exports: HarddiskInfo.Valid, HarddiskInfo.Holds, write_addresses_read_sector
-/
import Cromwell.Ide.BootIde

namespace Cromwell.Ide

/-- A drive in LBA mode, or in CHS mode with a geometry that a drive can have. -/
def HarddiskInfo.Valid (info : HarddiskInfo) : Prop :=
  info.bLbaMode.toNat = ideDhLba ∨
    info.bLbaMode.toNat = ideDhChs ∧ 1 ≤ info.wCountHeads.toNat ∧ info.wCountHeads.toNat ≤ 16 ∧
      1 ≤ info.wCountSectorsPerTrack.toNat ∧ info.wCountSectorsPerTrack.toNat ≤ 255

/-- The drive has the block: it is below the number of its sectors. -/
def HarddiskInfo.Holds (info : HarddiskInfo) (block : Nat) : Prop :=
  if info.bLbaMode.toNat = ideDhChs then
    block < info.wCountCylinders.toNat * info.wCountHeads.toNat * info.wCountSectorsPerTrack.toNat
  else block < info.dwCountSectorsTotal.toNat

instance (info : HarddiskInfo) (block : Nat) : Decidable (info.Holds block) :=
  inferInstanceAs (Decidable (if info.bLbaMode.toNat = ideDhChs then
    block < info.wCountCylinders.toNat * info.wCountHeads.toNat * info.wCountSectorsPerTrack.toNat
    else block < info.dwCountSectorsTotal.toNat))

/-- The registers after the command. -/
theorem issue_taskFile (info : HarddiskInfo) (nDriveIndex : Nat) (t : TaskFile) (command : Nat)
    (params : IdeCommandParams) :
    (selectDrive info nDriveIndex ++ bootIdeIssueAtaCommand command params).foldl TaskFile.write t =
      { sectorNumber := ⟨params.bSector, params.bSectorExt⟩
        cylinderLsb := ⟨params.wCylinder % 256, params.wCylinderExt % 256⟩
        cylinderMsb := ⟨params.wCylinder / 256, params.wCylinderExt / 256⟩
        drivehead := params.bDrivehead
        command := command } := rfl

/-- The drive and head register keeps its parts apart. -/
theorem drivehead_parts (nDriveIndex : Nat) {x : Nat} (hx : x < 16) :
    (ideDhDefault ||| x ||| ideDhDrive nDriveIndex ||| ideDhLba) % 16 = x ∧
      (ideDhDefault ||| x ||| ideDhDrive nDriveIndex ||| ideDhLba) / 0x40 % 2 = 1 ∧
      (ideDhDefault ||| x ||| ideDhDrive nDriveIndex ||| ideDhChs) % 16 = x ∧
      (ideDhDefault ||| x ||| ideDhDrive nDriveIndex ||| ideDhChs) / 0x40 % 2 = 0 := by
  have hall : ∀ x < 16, ∀ d ∈ [0x10, 0x00], (ideDhDefault ||| x ||| d ||| ideDhLba) % 16 = x ∧
      (ideDhDefault ||| x ||| d ||| ideDhLba) / 0x40 % 2 = 1 ∧ (ideDhDefault ||| x ||| d ||| ideDhChs) % 16 = x ∧
      (ideDhDefault ||| x ||| d ||| ideDhChs) / 0x40 % 2 = 0 := by decide
  refine hall x hx (ideDhDrive nDriveIndex) ?_
  unfold ideDhDrive
  split
  · exact List.mem_cons_self
  · exact List.mem_cons_of_mem _ List.mem_cons_self

/-- The 48-bit parameters in a 48-bit command. -/
theorem sector_ext (info : HarddiskInfo) (nDriveIndex : Nat) (t : TaskFile) {block : Nat}
    (large : 0x10000000 ≤ block) (bound : block < 2 ^ 32) :
    addressedSector info t (bootIdeReadSector info nDriveIndex block) = block := by
  rw [addressedSector, bootIdeReadSector, issue_taskFile, if_pos large, sectorParams, if_pos large, TaskFile.sector]
  dsimp only
  rw [if_pos (show isExtCommand ideCmdReadExt = true from rfl)]
  omega

/-- The 48-bit parameters in a 28-bit command: the upper byte is lost. -/
theorem sector_truncated (info : HarddiskInfo) (nDriveIndex : Nat) (t : TaskFile) {block : Nat}
    (large : 0x10000000 ≤ block) :
    addressedSector info t (bootIdeWriteSector info nDriveIndex block) = block % 2 ^ 24 := by
  have hhead : (ideDhDrive nDriveIndex ||| ideDhLba) % 16 = 0 ∧ (ideDhDrive nDriveIndex ||| ideDhLba) / 0x40 % 2 = 1 := by
    unfold ideDhDrive
    split
    · decide
    · decide
  have hcommand : isExtCommand ideCmdWriteMultiRetry = false := rfl
  rw [addressedSector, bootIdeWriteSector, issue_taskFile, sectorParams, if_pos large, TaskFile.sector]
  dsimp only
  rw [hcommand, if_neg Bool.false_ne_true, if_pos hhead.2, hhead.1]
  omega

/-- What a drive in CHS mode holds has a cylinder number. -/
theorem HarddiskInfo.Holds.cylinder {info : HarddiskInfo} {block : Nat} (holds : info.Holds block)
    (hchs : info.bLbaMode.toNat = ideDhChs) :
    block < info.wCountHeads.toNat * info.wCountSectorsPerTrack.toNat * 2 ^ 16 := by
  rw [HarddiskInfo.Holds, if_pos hchs] at holds
  have hcyls := info.wCountCylinders.toNat_lt
  calc block < info.wCountCylinders.toNat * info.wCountHeads.toNat * info.wCountSectorsPerTrack.toNat := holds
    _ = info.wCountHeads.toNat * info.wCountSectorsPerTrack.toNat * info.wCountCylinders.toNat := by ring
    _ ≤ info.wCountHeads.toNat * info.wCountSectorsPerTrack.toNat * 2 ^ 16 := Nat.mul_le_mul_left _ hcyls.le

/-- Any 28-bit command leads to the block. -/
theorem sector_small {info : HarddiskInfo} (valid : info.Valid) (nDriveIndex : Nat) (t : TaskFile) {block command : Nat}
    (holds : info.bLbaMode.toNat = ideDhChs →
      block < info.wCountHeads.toNat * info.wCountSectorsPerTrack.toNat * 2 ^ 16)
    (small : block < 0x10000000) (hcommand : isExtCommand command = false) :
    addressedSector info t (selectDrive info nDriveIndex ++
      bootIdeIssueAtaCommand command (sectorParams info nDriveIndex block)) = block := by
  rw [addressedSector, issue_taskFile, sectorParams, if_neg (by omega), TaskFile.sector]
  dsimp only
  rw [hcommand, if_neg Bool.false_ne_true]
  by_cases hchs : info.bLbaMode.toNat = ideDhChs
  · have hgeometry := valid.resolve_left fun hlba => absurd (hlba.symm.trans hchs) (by decide)
    obtain ⟨-, hheads, hheads16, hspt, hspt255⟩ := hgeometry
    replace holds := holds hchs
    set heads := info.wCountHeads.toNat
    set spt := info.wCountSectorsPerTrack.toNat
    rw [if_pos hchs]
    dsimp only
    have htrack : block / spt % heads < 16 := Nat.lt_of_lt_of_le (Nat.mod_lt _ hheads) hheads16
    have hmod : block % spt < spt := Nat.mod_lt _ hspt
    have hcylinder : block / spt / heads < 2 ^ 16 := by
      rw [Nat.div_div_eq_div_mul, Nat.mul_comm spt]
      exact Nat.div_lt_of_lt_mul holds
    obtain ⟨-, -, hlow, hflag⟩ := drivehead_parts nDriveIndex (x := ideDhHead (block / spt % heads))
      (Nat.mod_lt _ (by decide))
    rw [hflag, if_neg (by decide), hlow, ideDhHead, Nat.mod_eq_of_lt htrack, Nat.mod_eq_of_lt hcylinder,
      Nat.mod_eq_of_lt (show 1 + block % spt < 256 by omega), show block / spt / heads % 256 + 2 ^ 8 *
      (block / spt / heads / 256) = block / spt / heads by omega, Nat.div_add_mod', Nat.add_comm 1, ← Nat.add_assoc,
      Nat.div_add_mod', Nat.add_sub_cancel]
  · rw [if_neg hchs]
    dsimp only
    obtain ⟨hlow, hflag, -, -⟩ := drivehead_parts nDriveIndex (x := block / 2 ^ 24 % 16) (Nat.mod_lt _ (by decide))
    rw [if_pos hflag, hlow]
    omega

/-- For every drive and every block that it holds, whatever the registers held before: reading addresses the block, and
    writing addresses the same sector exactly when the block needs no more than 28 bits. -/
theorem write_addresses_read_sector (info : HarddiskInfo) (valid : info.Valid) (nDriveIndex : Nat) (t t' : TaskFile)
    (block : Nat) (bound : block < 2 ^ 32) (holds : info.Holds block) :
    addressedSector info t (bootIdeReadSector info nDriveIndex block) = block ∧
      (addressedSector info t' (bootIdeWriteSector info nDriveIndex block) =
        addressedSector info t (bootIdeReadSector info nDriveIndex block) ↔ block < 0x10000000) := by
  have hread : addressedSector info t (bootIdeReadSector info nDriveIndex block) = block := by
    by_cases hsmall : block < 0x10000000
    · rw [bootIdeReadSector, if_neg (by omega)]
      exact sector_small valid nDriveIndex t holds.cylinder hsmall rfl
    · exact sector_ext info nDriveIndex t (by omega) bound
  refine ⟨hread, ?_⟩
  rw [hread]
  constructor
  · intro hwrite
    by_contra hlarge
    rw [sector_truncated info nDriveIndex t' (by omega)] at hwrite
    omega
  · intro hsmall
    exact sector_small valid nDriveIndex t' holds.cylinder hsmall rfl

/-- A disk of 150 GB. -/
def largeDisk : HarddiskInfo := ⟨16, 16383, 63, 0x12000000, 0x40⟩

/-- Registers of a drive before any command. -/
def clearedTaskFile : TaskFile := ⟨⟨0, 0⟩, ⟨0, 0⟩, ⟨0, 0⟩, 0, 0⟩

theorem write_addresses_read_sector_last_28 :
    largeDisk.Valid ∧ largeDisk.Holds 0x0fffffff ∧
      addressedSector largeDisk clearedTaskFile (bootIdeWriteSector largeDisk 0 0x0fffffff) =
        addressedSector largeDisk clearedTaskFile (bootIdeReadSector largeDisk 0 0x0fffffff) := by
  have hvalid : largeDisk.Valid := Or.inl rfl
  have hholds : largeDisk.Holds 0x0fffffff := by decide
  exact ⟨hvalid, hholds, (write_addresses_read_sector largeDisk hvalid 0 clearedTaskFile clearedTaskFile 0x0fffffff
    (by decide) hholds).2.mpr (by decide)⟩

/-- The first block beyond 28 bits is written to sector 0. -/
theorem large_block_overwrites_first_sector :
    largeDisk.Valid ∧ largeDisk.Holds 0x10000000 ∧
      addressedSector largeDisk clearedTaskFile (bootIdeWriteSector largeDisk 0 0x10000000) = 0 ∧
      addressedSector largeDisk clearedTaskFile (bootIdeReadSector largeDisk 0 0x10000000) = 0x10000000 := by
  exact ⟨Or.inl rfl, by decide, by decide, by decide⟩

end Cromwell.Ide
