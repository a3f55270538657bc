/-
Module: Cromwell.Flash.Installation
Layer: Spec and proofs
Purpose: For which chips and contents a reflash reaches the reset command only with the image in the flash, whatever the
  failures of the chip. All but one kind: a 28xxx chip of the table that begins with its own manufacturer number is
  spoken to in the commands of the other convention, and answers the reads of the three passes without having taken
  anything.
Imports: Cromwell.Flash.Detection, Cromwell.Flash.Admission
Trusted boundary: human-reviewed statement (NorBehaviour.SameChip, deviceLength, Installs)
Main exports: NorBehaviour.SameChip, deviceLength, Installs, reflash_installs_iff
-/
import Cromwell.Flash.Detection
import Cromwell.Flash.Admission

namespace Cromwell.Flash

open Comp
open ByteMemory (u32)

/-! ### The statement -/

/-- The same chip, which may fail in other ways. -/
structure NorBehaviour.SameChip (β' β : NorBehaviour) : Prop where
  uses28 : β'.uses28 = β.uses28
  length : β'.length = β.length
  sector : β'.sector = β.sector
  identifier : β'.identifier = β.identifier

/-- The length of a chip of the table; 0 for a chip that is not there. -/
def deviceLength (β : NorBehaviour) : Nat :=
  ((aknownflashtypesDefault.find? fun kft =>
    kft.bManufacturerId == β.identifier 0 && kft.bDeviceId == β.identifier 1).map KnownFlashType.dwLengthInBytes).getD 0

/-- Whatever the failures of the chip, the data, the region inside it and the length of the run: a reflash reaches the
    reset command only with the image in the flash. -/
def Installs (β : NorBehaviour) (s : FlashState NorChip) : Prop :=
  ∀ (β' : NorBehaviour), β'.SameChip β → ∀ (fuel passes : Nat) (pbNewData : Nat → UInt8) (dwStartOffset dwLength : Nat),
    dwStartOffset + dwLength ≤ deviceLength β → ∀ s',
    bootReflashAndReset (norBus β') fuel passes pbNewData dwStartOffset dwLength s = some (.reset, s') →
    ∀ i < dwLength, s'.dev.array (dwStartOffset + i) = pbNewData i

/-! ### A chip that answers 0xff -/

/-- The chip with every status 0xff. -/
def NorBehaviour.jammed (β : NorBehaviour) : NorBehaviour :=
  { β with programmed := fun _ => 0, erased := fun _ _ => false, busyReads := fun _ => 0, status := fun _ => 0xff }

theorem NorBehaviour.jammed_same (β : NorBehaviour) : β.jammed.SameChip β := ⟨rfl, rfl, rfl, rfl⟩

/-- Set up to program a byte, over the contents. -/
structure SetUp (array : Nat → UInt8) (len : Nat) (s : FlashState NorChip) : Prop where
  mode : s.dev.mode = .programSetup
  contents : s.dev.array = array
  startOffset : s.pof.dwStartOffset = 0
  usedArea : s.pof.dwLengthUsedArea = len

section SetUp

variable {β : NorBehaviour} {array : Nat → UInt8} {len : Nat} {s : FlashState NorChip}

theorem SetUp.readByte (h : SetUp array len s) (dw : Nat) :
    ∃ s', readByte (norBus β.jammed) dw s = some (0xff, s') ∧ SetUp array len s' := by
  have hread : NorChip.read β.jammed dw s.dev = (0xff, { s.dev with polls := s.dev.polls + 1 }) := by
    simp only [NorChip.read, h.mode]
    rfl
  refine ⟨{ s with dev := { s.dev with polls := s.dev.polls + 1 } }, ?_, h.mode, h.contents, h.startOffset, h.usedArea⟩
  simp only [Flash.readByte, norBus, hread]

theorem notify_true (ee : EnumEvents) (dwPos dwExtent : Nat) (s : FlashState NorChip) :
    notify (norBus β) ee dwPos dwExtent s = some (true, s) := rfl

theorem notifyEvery1K_true (ee : EnumEvents) (dw dwPos dwExtent : Nat) (s : FlashState NorChip) :
    notifyEvery1K (norBus β) ee dw dwPos dwExtent s = some (true, s) := by
  rw [notifyEvery1K]
  split
  · rfl
  · rfl

/-- The erase takes every byte for erased. -/
theorem SetUp.eraseLoop (h : SetUp array len s) (spin : Nat) {fuel dwLen : Nat} (hfuel : dwLen < fuel)
    (dw dwLastEraseAddress nCountEraseRetryIn4KBlock : Nat) :
    ∃ s', eraseLoop (norBus β.jammed) spin fuel dw dwLen dwLastEraseAddress nCountEraseRetryIn4KBlock s =
      some (true, s') ∧ SetUp array len s' := by
  induction dwLen generalizing fuel dw s with
  | zero =>
      obtain ⟨fuel, rfl⟩ : ∃ f, fuel = f + 1 := ⟨fuel - 1, by omega⟩
      refine ⟨s, ?_, h⟩
      rw [Flash.eraseLoop, if_pos rfl]
      rfl
  | succ dwLen ih =>
      obtain ⟨fuel, rfl⟩ : ∃ f, fuel = f + 1 := ⟨fuel - 1, by omega⟩
      obtain ⟨s₁, hread, h₁⟩ := h.readByte (β := β) dw
      obtain ⟨s', hrest, h'⟩ := ih h₁ (Nat.lt_of_succ_lt_succ hfuel) (u32 (dw + 1))
      refine ⟨s', ?_, h'⟩
      rw [Flash.eraseLoop, if_neg (Nat.succ_ne_zero dwLen), bind_run hread, if_neg (not_not_intro rfl), get_bind_run,
        bind_run (notifyEvery1K_true _ _ _ _ _), if_pos rfl]
      exact hrest

/-- The program run takes an image of 0xff for programmed. -/
theorem SetUp.programLoop (h : SetUp array len s) (spin : Nat) {fuel dwLen : Nat} (hfuel : dwLen < fuel)
    (dw dwSrc dwLastProgramAddress nCountProgramRetries : Nat) :
    ∃ s', programLoop (norBus β.jammed) (fun _ => 0xff) spin fuel dw dwLen dwSrc dwLastProgramAddress
      nCountProgramRetries s = some (true, s') ∧ SetUp array len s' := by
  induction dwLen generalizing fuel dw dwSrc s with
  | zero =>
      obtain ⟨fuel, rfl⟩ : ∃ f, fuel = f + 1 := ⟨fuel - 1, by omega⟩
      refine ⟨s, ?_, h⟩
      rw [Flash.programLoop, if_pos rfl]
      rfl
  | succ dwLen ih =>
      obtain ⟨fuel, rfl⟩ : ∃ f, fuel = f + 1 := ⟨fuel - 1, by omega⟩
      obtain ⟨s₁, hread, h₁⟩ := h.readByte (β := β) dw
      obtain ⟨s', hrest, h'⟩ := ih h₁ (Nat.lt_of_succ_lt_succ hfuel) (u32 (dw + 1)) (u32 (dwSrc + 1))
      refine ⟨s', ?_, h'⟩
      rw [Flash.programLoop, if_neg (Nat.succ_ne_zero dwLen), bind_run hread, if_neg (not_not_intro rfl), get_bind_run,
        bind_run (notifyEvery1K_true _ _ _ _ _), if_pos rfl]
      exact hrest

/-- And so does the verify pass. -/
theorem SetUp.verify (h : SetUp array len s) (remaining address : Nat) :
    ∃ s', verify (norBus β.jammed) (fun _ => 0xff) remaining address false s = some (false, s') ∧ SetUp array len s' := by
  induction remaining generalizing address s with
  | zero =>
      exact ⟨s, rfl, h⟩
  | succ remaining ih =>
      obtain ⟨s₁, hread, h₁⟩ := h.readByte (β := β) address
      obtain ⟨s', hrest, h'⟩ := ih h₁ (address + 1)
      refine ⟨s', ?_, h'⟩
      rw [Flash.verify, bind_run hread]
      exact hrest

end SetUp

/-! ### A chip that is mistaken -/

/-- Identification mode under the commands of the other convention, with the whole chip as the region. -/
structure Mistaken (array : Nat → UInt8) (len : Nat) (s : FlashState NorChip) : Prop where
  mode : s.dev.mode = .identification
  contents : s.dev.array = array
  convention : s.pof.fDetectedUsing28xxxConventions = false
  startOffset : s.pof.dwStartOffset = 0
  usedArea : s.pof.dwLengthUsedArea = len
  length : s.pof.dwLengthInBytes = len

section Mistaken

variable {β : NorBehaviour} {array : Nat → UInt8} {len : Nat} {s : FlashState NorChip}

/-- Its sector erase is a list of writes that the chip does not know. -/
theorem Mistaken.eraseAttempt (h : Mistaken array len s) (uses28 : β.uses28 = true) (fuel n : Nat) (hn : 2 ≤ n) :
    Flash.eraseAttempt (norBus β.jammed) (fuel + 1) 0 n s = some (true, s) := by
  obtain ⟨⟨man, dev, desc, info, lenBytes, startOffset, used, conv, cap⟩, m, a, k, p⟩ := s
  obtain ⟨hmode, -, hconv, -, -, -⟩ := h
  dsimp only at hmode hconv
  subst hmode hconv
  have huses : β.jammed.uses28 = true := uses28
  have hcount : ¬ n < 2 := Nat.not_lt.mpr hn
  simp [Flash.eraseAttempt, eraseAttempt29, eraseCommand29, eraseOtherwise29, eraseUnlock, resetUnlock, bind, pure,
    Comp.get, Comp.modify, writeBytes, writeByte, Flash.readByte, toggleWait, norBus, NorChip.write, NorChip.write28,
    NorChip.read, huses, hcount]

/-- Its chip erase is a program command for a chip of the other convention. -/
theorem Mistaken.chipErase (h : Mistaken array len s) (uses28 : β.uses28 = true) (fuel : Nat) :
    ∃ s', Flash.eraseAttempt (norBus β.jammed) (fuel + 1) 0 1 s = some (true, s') ∧ SetUp array len s' := by
  obtain ⟨⟨man, dev, desc, info, lenBytes, startOffset, used, conv, cap⟩, m, a, k, p⟩ := s
  obtain ⟨hmode, harray, hconv, hstart, hused, hlength⟩ := h
  dsimp only at hmode harray hconv hstart hused hlength
  subst hmode harray hconv hstart hused hlength
  have huses : β.jammed.uses28 = true := uses28
  have hstatus : ∀ k, β.jammed.status k = 0xff := fun _ => rfl
  refine ⟨⟨⟨man, dev, desc, info, lenBytes, 0, lenBytes, false, cap⟩, .programSetup, a, k, p + 2⟩, ?_, rfl, rfl, rfl, rfl⟩
  simp [Flash.eraseAttempt, eraseAttempt29, eraseCommand29, eraseOtherwise29, eraseUnlock, resetUnlock, bind, pure,
    Comp.get, Comp.modify, writeBytes, writeByte, Flash.readByte, toggleWait, norBus, NorChip.write, NorChip.write28,
    NorChip.read, huses, hstatus]

theorem Mistaken.readByte (h : Mistaken array len s) (dw : Nat) :
    Flash.readByte (norBus β.jammed) dw s = some (β.identifier dw, s) := by
  simp only [Flash.readByte, norBus, NorChip.read, h.mode]
  rfl

/-- The erase runs out of sector erases, sends the chip erase, and then takes every byte for erased. -/
theorem Mistaken.eraseLoop (h : Mistaken array len s) (uses28 : β.uses28 = true) (hident : β.identifier 0 ≠ 0xff)
    {fuel : Nat} (hlen : 0 < len) (hfuel : len + 5 ≤ fuel) :
    ∃ s', Flash.eraseLoop (norBus β.jammed) fuel fuel 0 len 0xffffffff maxEraseRetriesIn4KBlockBeforeFailing s =
      some (true, s') ∧ SetUp array len s' := by
  have hne : len ≠ 0 := Nat.ne_of_gt hlen
  have hagain : ∀ spin rest n, 2 ≤ n → Flash.eraseLoop (norBus β.jammed) (spin + 1) (rest + 1) 0 len 0 (n + 1) s =
      Flash.eraseLoop (norBus β.jammed) (spin + 1) rest 0 len 0 n s := by
    intro spin rest n hn
    rw [Flash.eraseLoop, if_neg hne, bind_run (h.readByte 0), if_pos hident, if_pos rfl, Nat.add_sub_cancel,
      if_neg (by omega), bind_run (h.eraseAttempt uses28 spin n hn), if_pos rfl]
  obtain ⟨spin, rfl⟩ : ∃ f, fuel = f + 5 := ⟨fuel - 5, by omega⟩
  obtain ⟨s₁, hchip, h₁⟩ := h.chipErase uses28 (spin + 4)
  obtain ⟨s', hrest, h'⟩ := h₁.eraseLoop (β := β) (spin + 5) (show len < spin + 1 by omega) 0 0 1
  refine ⟨s', ?_, h'⟩
  have hfirst : Flash.eraseLoop (norBus β.jammed) (spin + 5) (spin + 5) 0 len 0xffffffff
      maxEraseRetriesIn4KBlockBeforeFailing s = Flash.eraseLoop (norBus β.jammed) (spin + 5) (spin + 4) 0 len 0 4 s := by
    rw [Flash.eraseLoop, if_neg hne, bind_run (h.readByte 0), if_pos hident, if_neg (by decide),
      bind_run (h.eraseAttempt uses28 (spin + 4) _ (by decide)), if_pos rfl]
    rfl
  have hlast : Flash.eraseLoop (norBus β.jammed) (spin + 5) (spin + 2) 0 len 0 2 s =
      Flash.eraseLoop (norBus β.jammed) (spin + 5) (spin + 1) 0 len 0 1 s₁ := by
    rw [Flash.eraseLoop, if_neg hne, bind_run (h.readByte 0), if_pos hident, if_pos rfl, if_neg (by decide),
      bind_run hchip, if_pos rfl]
  rw [hfirst, hagain (spin + 4) (spin + 3) 3 (by decide), hagain (spin + 4) (spin + 2) 2 (by decide), hlast]
  exact hrest

/-- The region and the contents after a message has been set. -/
theorem setErrorInfo_run (text : String) (s : FlashState NorChip) :
    setErrorInfo text s = some ((), { s with pof := { s.pof with szAdditionalErrorInfo := text } }) := rfl

/-- One pass over the whole chip with an image of 0xff ends the retry loop. -/
theorem Mistaken.reflashPass (h : Mistaken array len s) (uses28 : β.uses28 = true) (hident : β.identifier 0 ≠ 0xff)
    (hlen : 0 < len) :
    ∃ s', Flash.reflashPass (norBus β.jammed) (len + 5) (fun _ => 0xff) len s = some (false, s') ∧
      SetUp array len s' := by
  have hclear : Mistaken array len { s with pof := { s.pof with szAdditionalErrorInfo := "" } } :=
    ⟨h.mode, h.contents, h.convention, h.startOffset, h.usedArea, h.length⟩
  obtain ⟨s₁, herase, h₁⟩ := hclear.eraseLoop uses28 hident hlen (Nat.le_refl (len + 5))
  have h₁' : SetUp array len { s₁ with pof := { s₁.pof with szAdditionalErrorInfo := "" } } :=
    ⟨h₁.mode, h₁.contents, h₁.startOffset, h₁.usedArea⟩
  obtain ⟨s₂, hprogram, h₂⟩ := h₁'.programLoop (β := β) (len + 5) (show len < len + 5 by omega) 0 0 0xffffffff 4
  obtain ⟨s', hverify, h'⟩ := h₂.verify (β := β) len 0
  refine ⟨s', ?_, h'⟩
  have heraseRun : bootFlashEraseMinimalRegion (norBus β.jammed) (len + 5) s = some (true, s₁) := by
    rw [bootFlashEraseMinimalRegion, bind_run (setErrorInfo_run "" s), bind_run (notify_true _ _ _ _), if_pos rfl,
      get_bind_run, hclear.startOffset, hclear.usedArea]
    exact herase
  have hprogramRun : bootFlashProgram (norBus β.jammed) (len + 5) (fun _ => 0xff) s₁ = some (true, s₂) := by
    rw [bootFlashProgram, bind_run (setErrorInfo_run "" s₁), bind_run (notify_true _ _ _ _), if_pos rfl,
      get_bind_run, h₁'.startOffset, h₁'.usedArea]
    exact hprogram
  have hboth : eraseAndProgram (norBus β.jammed) (len + 5) (fun _ => 0xff) s = some (false, s₂) := by
    rw [eraseAndProgram, bind_run heraseRun, if_pos rfl, bind_run hprogramRun]
    rfl
  rw [Flash.reflashPass, bind_run hboth]
  exact hverify

end Mistaken

/-! ### Which chips a reflash installs on -/

/-- A chip of the table. -/
theorem deviceLength_eq {β : NorBehaviour} {kft : KnownFlashType}
    (hfind : (aknownflashtypesDefault.find? fun kft =>
      kft.bManufacturerId == β.identifier 0 && kft.bDeviceId == β.identifier 1) = some kft) :
    deviceLength β = kft.dwLengthInBytes ∧ kft ∈ aknownflashtypesDefault ∧ β.identifier 0 = kft.bManufacturerId ∧
      β.identifier 1 = kft.bDeviceId := by
  have hmatch := List.find?_some hfind
  rw [Bool.and_eq_true, beq_iff_eq, beq_iff_eq] at hmatch
  refine ⟨?_, List.mem_of_find?_eq_some hfind, hmatch.1.symm, hmatch.2.symm⟩
  rw [deviceLength, hfind]
  rfl

theorem deviceLength_cases (β : NorBehaviour) :
    deviceLength β = 0 ∨ ∃ kft ∈ aknownflashtypesDefault, deviceLength β = kft.dwLengthInBytes ∧
      β.identifier 0 = kft.bManufacturerId ∧ β.identifier 1 = kft.bDeviceId := by
  cases hfind : aknownflashtypesDefault.find? fun kft =>
      kft.bManufacturerId == β.identifier 0 && kft.bDeviceId == β.identifier 1 with
  | none =>
      refine Or.inl ?_
      rw [deviceLength, hfind]
      rfl
  | some kft =>
      obtain ⟨hlength, hmem, hids⟩ := deviceLength_eq hfind
      exact Or.inr ⟨kft, hmem, hlength, hids⟩

theorem known_manufacturer_ne : ∀ kft ∈ aknownflashtypesDefault, kft.bManufacturerId ≠ 0xff := by
  decide

/-- The flash object with the whole chip as the region. -/
def wholeChip (pof : ObjectFlash) (len : Nat) : ObjectFlash := { pof with dwStartOffset := 0, dwLengthUsedArea := len }

/-- A 28xxx chip of the table that begins with its manufacturer number: a reflash of the whole chip with 0xff is over
    after one pass, and the chip is as it was. -/
theorem mistaken_reflash {β : NorBehaviour} {s : FlashState NorChip} (mode : s.dev.mode = .array)
    (uses28 : β.uses28 = true) {kft : KnownFlashType} (known : kft ∈ aknownflashtypesDefault)
    (manufacturer : β.identifier 0 = kft.bManufacturerId) (device : β.identifier 1 = kft.bDeviceId)
    (hlen : 0 < kft.dwLengthInBytes) (same : s.dev.array 0 = β.identifier 0) :
    ∃ s', bootReflashAndReset (norBus β.jammed) (kft.dwLengthInBytes + 5) 1 (fun _ => 0xff) 0 kft.dwLengthInBytes s =
      some (.reset, s') ∧ s'.dev.array = s.dev.array := by
  obtain ⟨pof, c⟩ := s
  dsimp only at mode same
  have hlong := known_length_le kft known
  have hidentify := identify_mistakes28 (β := β.jammed) uses28
    ⟨{ wholeChip pof kft.dwLengthInBytes with fIsBelievedCapableOfWriteAndErase := true, szAdditionalErrorInfo := "" }, c⟩
    mode same
  have hids : β.jammed.identifier 0 = kft.bManufacturerId ∧ β.jammed.identifier 1 = kft.bDeviceId :=
    ⟨manufacturer, device⟩
  rw [hids.1, hids.2] at hidentify
  have hdetect := bootFlashGetDescriptor_of_identify known Bool.noConfusion mode Bool.noConfusion hidentify
  have hmistaken : Mistaken c.array kft.dwLengthInBytes
      ⟨described β.jammed kft false (wholeChip pof kft.dwLengthInBytes), { c with mode := .identification }⟩ :=
    ⟨rfl, rfl, rfl, rfl, rfl, rfl⟩
  obtain ⟨s', hpass, h'⟩ := hmistaken.reflashPass uses28 (manufacturer ▸ known_manufacturer_ne kft known) hlen
  refine ⟨s', ?_, h'.contents⟩
  have hlength : ¬ kft.dwLengthInBytes < u32 (0 + kft.dwLengthInBytes) := by
    rw [ByteMemory.u32_of_lt (by omega)]
    omega
  have hloop : reflashLoop (norBus β.jammed) (kft.dwLengthInBytes + 5) (fun _ => 0xff) kft.dwLengthInBytes 1
      ⟨described β.jammed kft false (wholeChip pof kft.dwLengthInBytes), { c with mode := .identification }⟩ =
      some ((), s') := by
    rw [reflashLoop, bind_run hpass, if_neg Bool.noConfusion]
    rfl
  rw [bootReflashAndReset]
  refine (@bind_run _ _ _ _ _ _ ⟨wholeChip pof kft.dwLengthInBytes, c⟩ _ rfl).trans ?_
  rw [bind_run hdetect, get_bind_run, if_neg Bool.noConfusion]
  refine (congrFun (if_neg (show ¬ true = false from Bool.noConfusion)) _).trans ?_
  refine (congrFun (if_neg hlength) _).trans ?_
  rw [bind_run hloop]
  rfl

/-- For every chip, every contents and every state of the driver in front of a chip in array mode: whatever the failures
    of the chip, the data and the region, a reflash reaches the reset command only with the image in the flash, exactly
    when the chip is not a 28xxx chip of the table that begins with its own manufacturer number. -/
theorem reflash_installs_iff (β : NorBehaviour) (s : FlashState NorChip) (mode : s.dev.mode = .array) :
    Installs β s ↔ (β.uses28 = true → 0 < deviceLength β → s.dev.array 0 ≠ β.identifier 0) := by
  constructor
  · intro hinstalls uses28 hlen same
    rcases deviceLength_cases β with hzero | ⟨kft, known, hlength, manufacturer, device⟩
    · omega
    · rw [hlength] at hlen
      obtain ⟨s', hrun, harray⟩ := mistaken_reflash mode uses28 known manufacturer device hlen same
      have hfirst := hinstalls β.jammed β.jammed_same _ _ _ 0 kft.dwLengthInBytes (by omega) s' hrun 0 hlen
      rw [Nat.add_zero, harray, same, manufacturer] at hfirst
      exact known_manufacturer_ne kft known hfirst
  · intro hspeaks β' hsame fuel passes pbNewData start len hregion s' hrun i hi
    have hlong : deviceLength β ≤ 0x200000 := by
      rcases deviceLength_cases β with hzero | ⟨kft, known, hlength, -⟩
      · omega
      · rw [hlength]
        exact known_length_le kft known
    refine reflash_installs β' fuel passes pbNewData start len s s' mode ?_ (by omega) hrun i hi
    intro uses28
    rw [hsame.identifier]
    exact hspeaks (hsame.uses28 ▸ uses28) (by omega)

/-- The image. -/
def twoBytes (i : Nat) : UInt8 := if i = 0 then 0x12 else 0x34

/-- An erased AMD chip holds the two bytes that a reflash was asked for when it reaches the reset command. -/
theorem reflash_installs_two_bytes :
    ∃ s', bootReflashAndReset (norBus amdChip) 8 1 twoBytes 0 2 beforeReflash = some (.reset, s') ∧
      ∀ i < 2, s'.dev.array (0 + i) = twoBytes i := by
  have ends : (bootReflashAndReset (norBus amdChip) 8 1 twoBytes 0 2 beforeReflash).map Prod.fst =
      some .reset := by decide +kernel
  obtain ⟨⟨outcome, s'⟩, run, houtcome⟩ := Option.map_eq_some_iff.mp ends
  cases houtcome
  have installs : Installs amdChip beforeReflash :=
    (reflash_installs_iff amdChip beforeReflash rfl).mpr fun h => absurd h (by decide)
  exact ⟨s', run, installs amdChip ⟨rfl, rfl, rfl, rfl⟩ 8 1 twoBytes 0 2 (by decide +kernel) s' run⟩

/-- A Sharp chip with 0xff behind its identification codes and a status register that always answers 0x70. -/
def sharpFailing : NorBehaviour :=
  { sharpChip with identifier := fun a => if a = 0 then 0x89 else if a = 1 then 0xa6 else 0xff, status := fun _ => 0x70 }

/-- The driver in front of a chip that holds its manufacturer number in every byte. -/
def beforeSharpReflash : FlashState NorChip := ⟨beforeReflash.pof, .array, fun _ => 0x89, 0, 0⟩

/-- Asked for the byte 0x70 at offset 2, the reflash reaches the reset command with 0x89 there. -/
theorem reflash_over_mistaken_chip :
    ¬ ∀ s', bootReflashAndReset (norBus sharpFailing) 8 1 (fun _ => 0x70) 2 1 beforeSharpReflash = some (.reset, s') →
      ∀ i < 1, s'.dev.array (2 + i) = 0x70 := by
  intro h
  have ends : (bootReflashAndReset (norBus sharpFailing) 8 1 (fun _ => 0x70) 2 1 beforeSharpReflash).map
      (fun r => (r.1, r.2.dev.array 2)) = some (.reset, 0x89) := by decide +kernel
  obtain ⟨⟨outcome, s'⟩, run, hresult⟩ := Option.map_eq_some_iff.mp ends
  obtain ⟨rfl, harray⟩ := Prod.mk.inj hresult
  have hbyte := h s' run 0 Nat.one_pos
  dsimp only at harray
  rw [Nat.add_zero, harray] at hbyte
  exact absurd hbyte (by decide)

end Cromwell.Flash
