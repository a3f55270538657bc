/-
Module: Cromwell.Flash.Detection
Layer: Proofs
Purpose: What `BootFlashGetDescriptor` makes of a known chip, for every contents of the chip. Whenever the driver
  ends up in the convention of the chip, its result is a function of the chip alone; the contents decide about the
  convention through the one comparison of the first byte.
Imports: Cromwell.Flash.ReflashProof
Trusted boundary: human-reviewed statement (Detected)
Main exports: Detected, bootFlashGetDescriptor_run, detection_ignores_contents
-/
import Cromwell.Flash.ReflashProof

namespace Cromwell.Flash

open Comp

variable {β : NorBehaviour}

/-! ### The lock report -/

/-- The digits of the block lock report, from the identification codes. -/
def lockDigits (identifier : Nat → UInt8) : List Nat → String
  | [] => ""
  | n :: rest => toString (identifier (n ||| 2) &&& 1).toNat ++ lockDigits identifier rest

/-- The lock report of a 28xxx chip, from the identification codes. -/
def lockText (identifier : Nat → UInt8) (dwLengthInBytes : Nat) : String :=
  (if identifier 3 ≠ 0 then "Master Lock SET  " else "") ++ "Block Locks: " ++
    lockDigits identifier ((List.range ((dwLengthInBytes + 0xffff) / 0x10000)).map (· * 0x10000)) ++ "  "

/-- The flash object after the master lock was looked up. -/
def masterLocked (pof : ObjectFlash) (masterLock : UInt8) : ObjectFlash :=
  { pof with
    fIsBelievedCapableOfWriteAndErase := if masterLock ≠ 0 then false else pof.fIsBelievedCapableOfWriteAndErase }

theorem blockLocks_run (uses28 : β.uses28 = true) (offsets : List Nat) (pof : ObjectFlash) (c : NorChip)
    (mode : c.mode = .identification) :
    blockLocks (norBus β) offsets ⟨pof, c⟩ = some (lockDigits β.identifier offsets, ⟨pof, c⟩) := by
  obtain ⟨m, array, commands, polls⟩ := c
  subst mode
  induction offsets with
  | nil =>
      rfl
  | cons n rest ih =>
      have hwrite : writeByte (norBus β) 0x5555 0x90 ⟨pof, .identification, array, commands, polls⟩ =
          some ((), ⟨pof, .identification, array, commands, polls⟩) := by
        simp [writeByte, Comp.modify, norBus, NorChip.write, uses28, NorChip.write28]
      have hread : readByte (norBus β) (n ||| 2) ⟨pof, .identification, array, commands, polls⟩ =
          some (β.identifier (n ||| 2), ⟨pof, .identification, array, commands, polls⟩) := rfl
      rw [blockLocks, bind_run hwrite, bind_run hread, bind_run ih]
      rfl

/-- The report comes from the identification codes, and the chip is as before. -/
theorem lockReport28_run (uses28 : β.uses28 = true) (dwLengthInBytes : Nat) (pof : ObjectFlash) (c : NorChip)
    (mode : c.mode = .array) :
    lockReport28 (norBus β) dwLengthInBytes ⟨pof, c⟩ =
      some (lockText β.identifier dwLengthInBytes, ⟨masterLocked pof (β.identifier 3), c⟩) := by
  obtain ⟨m, array, commands, polls⟩ := c
  subst mode
  have henter : writeByte (norBus β) 0x5555 0x90 ⟨pof, .array, array, commands, polls⟩ =
      some ((), ⟨pof, .identification, array, commands, polls⟩) := by
    simp [writeByte, Comp.modify, norBus, NorChip.write, uses28, NorChip.write28]
  have hread : readByte (norBus β) 3 ⟨pof, .identification, array, commands, polls⟩ =
      some (β.identifier 3, ⟨pof, .identification, array, commands, polls⟩) := rfl
  have hlocks := blockLocks_run uses28 ((List.range ((dwLengthInBytes + 0xffff) / 0x10000)).map (· * 0x10000))
    (masterLocked pof (β.identifier 3)) ⟨.identification, array, commands, polls⟩ rfl
  have hleave : writeBytes (norBus β) [(0x5555, 0x50), (0x5555, 0xff)]
      ⟨masterLocked pof (β.identifier 3), .identification, array, commands, polls⟩ =
      some ((), ⟨masterLocked pof (β.identifier 3), .array, array, commands, polls⟩) := by
    simp [writeBytes, writeByte, bind, Comp.modify, norBus, NorChip.write, uses28, NorChip.write28]
    rfl
  rw [lockReport28, bind_run henter, bind_run hread]
  refine (@bind_run _ _ _ _ _ _ ⟨masterLocked pof (β.identifier 3), .identification, array, commands, polls⟩ _ rfl).trans ?_
  rw [bind_run hlocks, bind_run hleave]
  rfl

/-! ### Known chips -/

/-- No two entries of the table have the same numbers. -/
theorem find_known {kft : KnownFlashType} (known : kft ∈ aknownflashtypesDefault) :
    (aknownflashtypesDefault.find? fun k =>
      k.bManufacturerId == kft.bManufacturerId && k.bDeviceId == kft.bDeviceId) = some kft := by
  simp only [aknownflashtypesDefault, List.mem_cons, List.not_mem_nil, or_false] at known
  rcases known with rfl | rfl | rfl | rfl | rfl | rfl | rfl | rfl | rfl | rfl | rfl | rfl | rfl | rfl | rfl | rfl |
    rfl <;> rfl

/-- The flash object of a chip that was found in the table. -/
def described (β : NorBehaviour) (kft : KnownFlashType) (detected28 : Bool) (pof : ObjectFlash) : ObjectFlash :=
  let pof := identified { pof with fIsBelievedCapableOfWriteAndErase := true, szAdditionalErrorInfo := "" }
    kft.bManufacturerId kft.bDeviceId detected28
  let report := if detected28 then lockText β.identifier kft.dwLengthInBytes else ""
  { (if detected28 then masterLocked pof (β.identifier 3) else pof) with
    dwLengthInBytes := kft.dwLengthInBytes
    szFlashDescription := kft.szFlashDescription ++ " (" ++ toString (kft.dwLengthInBytes / 1024) ++ "K)" ++ report }

/-- The whole call, once it is known what the two tries have found. -/
theorem bootFlashGetDescriptor_of_identify {kft : KnownFlashType} (known : kft ∈ aknownflashtypesDefault)
    {detected28 : Bool} (convention : detected28 = true → β.uses28 = true) {pof : ObjectFlash} {c c' : NorChip}
    (mode : c.mode = .array) (mode' : detected28 = true → c'.mode = .array)
    (run : identify (norBus β) (c.array 0) (c.array 1)
        ⟨{ pof with fIsBelievedCapableOfWriteAndErase := true, szAdditionalErrorInfo := "" }, c⟩ =
      some ((), ⟨identified { pof with fIsBelievedCapableOfWriteAndErase := true, szAdditionalErrorInfo := "" }
        kft.bManufacturerId kft.bDeviceId detected28, c'⟩)) :
    bootFlashGetDescriptor (norBus β) aknownflashtypesDefault ⟨pof, c⟩ =
      some (true, ⟨described β kft detected28 pof, c'⟩) := by
  have hread : ∀ dw pof, readByte (norBus β) dw ⟨pof, c⟩ = some (c.array dw, ⟨pof, c⟩) := by
    intro dw pof
    simp only [readByte, norBus, NorChip.read, mode]
  rw [bootFlashGetDescriptor]
  refine (@bind_run _ _ _ _ _ _
    ⟨{ pof with fIsBelievedCapableOfWriteAndErase := true, szAdditionalErrorInfo := "" }, c⟩ _ rfl).trans ?_
  rw [bind_run (hread 0 _), bind_run (hread 1 _), bind_run run, get_bind_run]
  dsimp only [identified]
  rw [find_known known]
  cases detected28 with
  | true =>
      exact bind_run (lockReport28_run (convention rfl) kft.dwLengthInBytes _ c' (mode' rfl))
  | false =>
      rfl

/-- A chip that the first try recognises. -/
def answers28 (β : NorBehaviour) (array : Nat → UInt8) : Bool := β.uses28 && array 0 != β.identifier 0

/-- Every known chip is found in the table, for every contents. The contents decide about the convention, and whether
    the chip is left in array mode. -/
theorem bootFlashGetDescriptor_run {kft : KnownFlashType} (known : kft ∈ aknownflashtypesDefault)
    (manufacturer : β.identifier 0 = kft.bManufacturerId) (device : β.identifier 1 = kft.bDeviceId)
    (pof : ObjectFlash) {c : NorChip} (mode : c.mode = .array) :
    ∃ c', bootFlashGetDescriptor (norBus β) aknownflashtypesDefault ⟨pof, c⟩ =
        some (true, ⟨described β kft (answers28 β c.array) pof, c'⟩) ∧
      (c'.mode = .array ↔ answers28 β c.array = β.uses28) := by
  cases huses : β.uses28 with
  | false =>
      have hanswers : answers28 β c.array = false := by rw [answers28, huses, Bool.false_and]
      have hrun := identify_of_uses29 huses
        ⟨{ pof with fIsBelievedCapableOfWriteAndErase := true, szAdditionalErrorInfo := "" }, c⟩ mode
      rw [manufacturer, device] at hrun
      rw [hanswers]
      refine ⟨c, ?_, iff_of_true mode rfl⟩
      exact bootFlashGetDescriptor_of_identify known Bool.noConfusion mode Bool.noConfusion hrun
  | true =>
      by_cases hfirst : c.array 0 = β.identifier 0
      · have hanswers : answers28 β c.array = false := by rw [answers28, hfirst, bne_self_eq_false, Bool.and_false]
        have hrun := identify_mistakes28 huses
          ⟨{ pof with fIsBelievedCapableOfWriteAndErase := true, szAdditionalErrorInfo := "" }, c⟩ mode hfirst
        rw [manufacturer, device] at hrun
        rw [hanswers]
        refine ⟨{ c with mode := .identification }, ?_, iff_of_false NorMode.noConfusion Bool.noConfusion⟩
        exact bootFlashGetDescriptor_of_identify known Bool.noConfusion mode Bool.noConfusion hrun
      · have hanswers : answers28 β c.array = true := by rw [answers28, huses, bne_iff_ne.mpr hfirst, Bool.and_self]
        have hrun := identify_of_uses28 huses
          ⟨{ pof with fIsBelievedCapableOfWriteAndErase := true, szAdditionalErrorInfo := "" }, c⟩ mode hfirst
        rw [manufacturer, device] at hrun
        rw [hanswers]
        refine ⟨c, ?_, iff_of_true mode rfl⟩
        exact bootFlashGetDescriptor_of_identify known (fun _ => huses) mode (fun _ => mode) hrun

/-! ### Detection and the contents -/

/-- A known chip has been detected for what it is. -/
structure Detected (β : NorBehaviour) (kft : KnownFlashType) (seen : Bool) (s : FlashState NorChip) : Prop where
  seen : seen = true
  manufacturer : s.pof.bManufacturerId = β.identifier 0
  device : s.pof.bDeviceId = β.identifier 1
  length : s.pof.dwLengthInBytes = kft.dwLengthInBytes
  convention : s.pof.fDetectedUsing28xxxConventions = β.uses28
  mode : s.dev.mode = .array

/-- What a detection tells: its result and the flash object. -/
def detection (β : NorBehaviour) (pof : ObjectFlash) (c : NorChip) : Option (Bool × ObjectFlash) :=
  (bootFlashGetDescriptor (norBus β) aknownflashtypesDefault ⟨pof, c⟩).map fun r => (r.1, r.2.pof)

/-- For every known chip of either convention and every contents: the chip is detected for what it is exactly when it
    is a 29xxx chip or its first byte is not its manufacturer number, and two contents give the same detection exactly
    when this holds of both or of neither. -/
theorem detection_ignores_contents (β : NorBehaviour) (kft : KnownFlashType) (known : kft ∈ aknownflashtypesDefault)
    (manufacturer : β.identifier 0 = kft.bManufacturerId) (device : β.identifier 1 = kft.bDeviceId)
    (pof : ObjectFlash) (c : NorChip) (mode : c.mode = .array) :
    (∃ seen s, bootFlashGetDescriptor (norBus β) aknownflashtypesDefault ⟨pof, c⟩ = some (seen, s) ∧
      (Detected β kft seen s ↔ (β.uses28 = true → c.array 0 ≠ kft.bManufacturerId))) ∧
    ∀ c', c'.mode = .array → (detection β pof c = detection β pof c' ↔
      ((β.uses28 = true → c.array 0 ≠ kft.bManufacturerId) ↔
        (β.uses28 = true → c'.array 0 ≠ kft.bManufacturerId))) := by
  have hflag : ∀ array : Nat → UInt8, answers28 β array = β.uses28 ↔
      (β.uses28 = true → array 0 ≠ kft.bManufacturerId) := by
    intro array
    rw [answers28, manufacturer]
    cases β.uses28 with
    | false => simp
    | true => simp
  have hconvention : ∀ detected28, (described β kft detected28 pof).fDetectedUsing28xxxConventions = detected28 := by
    intro detected28
    cases detected28 with
    | true => rfl
    | false => rfl
  obtain ⟨d, hrun, hmode⟩ := bootFlashGetDescriptor_run known manufacturer device pof mode
  constructor
  · refine ⟨true, _, hrun, ?_⟩
    rw [← hflag, ← hmode]
    constructor
    · exact fun h => h.mode
    · intro hd
      refine ⟨rfl, ?_, ?_, ?_, (hconvention _).trans (hmode.mp hd), hd⟩
      · rw [manufacturer]
        cases answers28 β c.array <;> rfl
      · rw [device]
        cases answers28 β c.array <;> rfl
      · cases answers28 β c.array <;> rfl
  · intro c' mode'
    obtain ⟨d', hrun', -⟩ := bootFlashGetDescriptor_run known manufacturer device pof mode'
    rw [detection, detection, hrun, hrun', ← hflag, ← hflag]
    constructor
    · intro hsame
      have hpof := congrArg (Option.map fun r => r.2.fDetectedUsing28xxxConventions) hsame
      simp only [Option.map_some, hconvention, Option.some.injEq] at hpof
      rw [hpof]
    · intro hboth
      have hbool : ∀ a b u : Bool, (a = u ↔ b = u) → a = b := by decide
      simp only [Option.map_some, hbool _ _ _ hboth]

/-- The Sharp chip of the table, with no lock set. -/
def sharpChip : NorBehaviour where
  uses28 := true
  length := 0x100000
  sector := fun a => a / 0x10000
  identifier := fun a => if a = 0 then 0x89 else if a = 1 then 0xa6 else 0
  programmed := fun _ => 0
  erased := fun _ _ => true
  busyReads := fun _ => 0
  status := fun _ => 0x80

/-- Its entry in the table. -/
def sharpType : KnownFlashType := ⟨0x89, 0xa6, "Sharp LHF08CH1", 0x100000⟩

theorem sharpType_known : sharpType ∈ aknownflashtypesDefault := by
  simp [sharpType, aknownflashtypesDefault]

/-- An erased Sharp chip is detected. -/
theorem detection_ignores_contents_erased :
    ∃ seen s, bootFlashGetDescriptor (norBus sharpChip) aknownflashtypesDefault
        ⟨beforeReflash.pof, .array, fun _ => 0xff, 0, 0⟩ = some (seen, s) ∧ Detected sharpChip sharpType seen s := by
  obtain ⟨⟨seen, s, hrun, hdetected⟩, -⟩ := detection_ignores_contents sharpChip sharpType sharpType_known rfl rfl
    beforeReflash.pof ⟨.array, fun _ => 0xff, 0, 0⟩ rfl
  exact ⟨seen, s, hrun, hdetected.mpr fun _ => by decide⟩

/-- A Sharp chip that begins with its own manufacturer number is taken for a 29xxx chip and left in identification
    mode. -/
theorem sharp_chip_mistaken :
    ¬ ∃ seen s, bootFlashGetDescriptor (norBus sharpChip) aknownflashtypesDefault
        ⟨beforeReflash.pof, .array, fun _ => 0x89, 0, 0⟩ = some (seen, s) ∧ Detected sharpChip sharpType seen s := by
  rintro ⟨seen, s, hrun, hdetected⟩
  obtain ⟨c', hrun', hmode⟩ := bootFlashGetDescriptor_run (β := sharpChip) sharpType_known rfl rfl beforeReflash.pof
    (show (⟨.array, fun _ => 0x89, 0, 0⟩ : NorChip).mode = .array from rfl)
  rw [hrun'] at hrun
  cases hrun
  exact absurd (hmode.mp hdetected.mode) (by decide)

end Cromwell.Flash
