/-
Module: Cromwell.Eeprom.Minimal
Layer: Proofs
Purpose: What a setting changes, for any contents of the EEPROM and any answers of the controller. The video standard
  changes its own bytes and its checksum only; the widescreen setting writes the whole byte of its flag, and so spares the
  letterbox flag and the others in that byte only when they are clear already.
Imports: Cromwell.Eeprom.Checksums
Trusted boundary: human-reviewed statement (SettingCall.Minimal, SettingCall.Spares)
Main exports: writeToSMBus_chip, writeRegisters_frame, SettingCall.Minimal, SettingCall.minimal_iff_spares
-/
import Cromwell.Eeprom.Checksums

namespace Cromwell.Eeprom

open ByteMemory

/-! ### Writes that may fail -/

/-- One of the fifty attempts writes the chip, whether it succeeds or not. -/
def Written (answers : Nat → Answer) : Prop :=
  ∃ i < 50, (answers i).status &&& 0x10 ≠ 0 ∨ (answers i).reached = true

theorem Succeeds.written {answers : Nat → Answer} (h : Succeeds answers) : Written answers := by
  obtain ⟨i, hi, hok⟩ := h
  exact ⟨i, hi, Or.inl hok⟩

/-- A write of a byte stores it or does nothing. -/
theorem writeToSMBus_chip (answers : Nat → Answer) {bRegister size : Nat} (hregister : bRegister < 256) (h2 : size ≠ 2)
    (h4 : size ≠ 4) (value : UInt8) (chip : Mem) :
    (Written answers → (writeToSMBus answers 0x54 bRegister size value.toNat chip).1 = chip.store bRegister value) ∧
      (¬ Written answers → (writeToSMBus answers 0x54 bRegister size value.toNat chip).1 = chip) := by
  have hloop := attemptLoop_chip answers
    (((smBusOutputs 0x54 bRegister size value.toNat).foldl SmBus.output ⟨0, 0, 0, []⟩).transfer (smBusCommand size))
    (fun chip => by rw [transfer_byte hregister h2 h4, transfer_byte hregister h2 h4, store_store]) 50 0 chip
  rw [transfer_byte hregister h2 h4] at hloop
  constructor
  · rintro ⟨i, hi, hwritten⟩
    exact hloop.1 ⟨i, Nat.zero_le i, by omega, hwritten⟩
  · intro hnone
    exact hloop.2 fun i _ hi hwritten => hnone ⟨i, by omega, hwritten⟩

/-- Whatever the controller answers, the other registers keep their bytes. -/
theorem writeRegisters_frame (answers : Nat → Nat → Answer) {size : Nat} (h2 : size ≠ 2) (h4 : size ≠ 4) (first : Nat)
    {bRegister : Nat} (values : List UInt8) (hregister : bRegister + values.length ≤ 256) (chip : Mem) {x : Nat}
    (hx : ¬ (bRegister ≤ x ∧ x < bRegister + values.length)) :
    writeRegisters answers size first bRegister values chip x = chip x := by
  induction values generalizing first bRegister chip with
  | nil => rfl
  | cons value rest ih =>
      rw [List.length_cons] at hregister hx
      rw [writeRegisters, ih (first + 1) (by omega) _ (by omega)]
      obtain ⟨hstored, hkept⟩ := writeToSMBus_chip (answers first) (show bRegister < 256 by omega) h2 h4 value chip
      by_cases hwritten : Written (answers first)
      · rw [hstored hwritten, Mem.store_of_ne (by omega)]
      · rw [hkept hwritten]

/-! ### What a setting may change -/

/-- The bits of a byte that a setting is about: the widescreen flag, or the bytes of the video standard. -/
def SettingCall.bits : SettingCall → Nat → UInt8
  | .widescreen _ _, i => if i = 0x96 then 0x01 else 0x00
  | .videoStandard _ _, i => if 0x58 ≤ i ∧ i < 0x5c then 0xff else 0x00

/-- The checksum that it computes anew: `Checksum3` or `Checksum2`. -/
def SettingCall.checksum : SettingCall → Nat
  | .widescreen _ _ => 0x60
  | .videoStandard _ _ => 0x30

/-- A call changes nothing but the bits of its setting, and on the chip its checksum. In a mirror of the chip the same
    bits change, when the writes succeed. -/
structure SettingCall.Minimal (call : SettingCall) (s : EepromState) : Prop where
  chip : ∀ i < 256, ¬ (call.checksum ≤ i ∧ i < call.checksum + 4) →
    (call.apply s).chip i &&& ~~~call.bits i = s.chip i &&& ~~~call.bits i
  mirror : ∀ i < 256, (call.apply s).mirror i &&& ~~~call.bits i = s.mirror i &&& ~~~call.bits i
  same : Mirrored s → (∀ k, Succeeds (call.answers k)) → ∀ i < 256, ¬ InChecksum i →
    (call.apply s).mirror i ^^^ s.mirror i = (call.apply s).chip i ^^^ s.chip i

/-- The other flags in the byte that is written are clear already; on the chip they matter only if it is written. -/
def SettingCall.Spares (call : SettingCall) (s : EepromState) : Prop :=
  match call with
  | .widescreen answers _ => s.mirror 0x96 &&& 0xfe = 0 ∧ (Written (answers 0) → s.chip 0x96 &&& 0xfe = 0)
  | .videoStandard _ _ => True

/-- The mirror follows the chip. -/
theorem SettingCall.same_bits (call : SettingCall) {s : EepromState} (mirrored : Mirrored s)
    (succeeds : ∀ k, Succeeds (call.answers k)) {i : Nat} (hi : i < 256) (hout : ¬ InChecksum i) :
    (call.apply s).mirror i ^^^ s.mirror i = (call.apply s).chip i ^^^ s.chip i := by
  have hafter := (call.apply_spec mirrored succeeds).1
  rw [hafter i hi hout, mirrored i hi hout]

section Widescreen

variable (answers : Nat → Nat → Answer) (enable : Int) (s : EepromState)

/-- The byte that is written. -/
def widescreenFlag : UInt8 := if enable ≠ 0 then 1 else 0

theorem widescreenFlag_others : widescreenFlag enable &&& 0xfe = 0 := by
  unfold widescreenFlag
  split <;> rfl

theorem widescreen_bits : ~~~(SettingCall.widescreen answers enable).bits 0x96 = 0xfe := by
  rw [SettingCall.bits, if_pos rfl]
  decide

theorem widescreen_mirror : (eepromSetWidescreen answers enable s).mirror = s.mirror.store 0x96 (widescreenFlag enable) :=
  rfl

/-- The chip outside the checksum is as the first write leaves it. -/
theorem widescreen_chip {i : Nat} (hi : ¬ (0x60 ≤ i ∧ i < 0x64)) :
    (eepromSetWidescreen answers enable s).chip i =
      (writeToSMBus (answers 0) 0x54 0x96 0 (widescreenFlag enable).toNat s.chip).1 i := by
  rw [eepromSetWidescreen]
  dsimp only
  rw [writeRegisters_frame answers (by decide) (by decide) 1 _ (by rw [eepromCRC_length]; decide) _
    (by rw [eepromCRC_length]; omega)]
  rfl

/-- The widescreen setting, whose flag shares its byte. -/
theorem widescreen_minimal_iff : (SettingCall.widescreen answers enable).Minimal s ↔
    s.mirror 0x96 &&& 0xfe = 0 ∧ (Written (answers 0) → s.chip 0x96 &&& 0xfe = 0) := by
  obtain ⟨hstored, hkept⟩ := writeToSMBus_chip (answers 0) (show 0x96 < 256 by decide) (show 0 ≠ 2 by decide)
    (show 0 ≠ 4 by decide) (widescreenFlag enable) s.chip
  constructor
  · intro h
    have hmirror := h.mirror 0x96 (by decide)
    rw [SettingCall.apply, widescreen_mirror, Mem.store_self, widescreen_bits] at hmirror
    refine ⟨hmirror.symm.trans (widescreenFlag_others enable), fun hwritten => ?_⟩
    have hchip := h.chip 0x96 (by decide) (by rw [SettingCall.checksum]; omega)
    rw [SettingCall.apply, widescreen_chip answers enable s (by omega), hstored hwritten, Mem.store_self,
      widescreen_bits] at hchip
    exact hchip.symm.trans (widescreenFlag_others enable)
  · rintro ⟨hmirror, hchip⟩
    refine ⟨fun i _ hi => ?_, fun i _ => ?_, fun mirrored succeeds i hi hout =>
      SettingCall.same_bits _ mirrored succeeds hi hout⟩
    · rw [SettingCall.checksum] at hi
      rw [SettingCall.apply, widescreen_chip answers enable s hi]
      by_cases hwritten : Written (answers 0)
      · rw [hstored hwritten]
        by_cases hflag : i = 0x96
        · subst hflag
          rw [Mem.store_self, widescreen_bits]
          exact (widescreenFlag_others enable).trans (hchip hwritten).symm
        · rw [Mem.store_of_ne hflag]
      · rw [hkept hwritten]
    · rw [SettingCall.apply, widescreen_mirror]
      by_cases hflag : i = 0x96
      · subst hflag
        rw [Mem.store_self, widescreen_bits]
        exact (widescreenFlag_others enable).trans hmirror.symm
      · rw [Mem.store_of_ne hflag]

end Widescreen

section VideoStandard

variable (answers : Nat → Nat → Answer) (standard : UInt32) (s : EepromState)

theorem videoStandard_bits {i : Nat} (hi : 0x58 ≤ i ∧ i < 0x5c) (b : UInt8) :
    b &&& ~~~(SettingCall.videoStandard answers standard).bits i = 0 := by
  have hall : ~~~(0xff : UInt8) = 0 := by decide
  rw [SettingCall.bits, if_pos hi, hall, UInt8.and_zero]

/-- The video standard has its bytes for itself. -/
theorem videoStandard_minimal : (SettingCall.videoStandard answers standard).Minimal s := by
  refine ⟨fun i _ hi => ?_, fun i _ => ?_, fun mirrored succeeds i hi hout =>
    SettingCall.same_bits _ mirrored succeeds hi hout⟩
  · rw [SettingCall.checksum] at hi
    rw [SettingCall.apply, eepromSetVideoStandard]
    dsimp only
    rw [writeRegisters_frame answers (by decide) (by decide) 4 _ (by rw [eepromCRC_length]; decide) _
      (by rw [eepromCRC_length]; omega)]
    by_cases hin : 0x58 ≤ i ∧ i < 0x5c
    · rw [videoStandard_bits answers standard hin, videoStandard_bits answers standard hin]
    · rw [writeRegisters_frame answers (by decide) (by decide) 0 _ (by simp) _ (by simp; omega)]
  · rw [SettingCall.apply, eepromSetVideoStandard]
    dsimp only
    by_cases hin : 0x58 ≤ i ∧ i < 0x5c
    · rw [videoStandard_bits answers standard hin, videoStandard_bits answers standard hin]
    · rw [show EepromField.videoStandard.offset = 0x58 by decide, Mem.storeWord_of_not_mem (by omega)]

end VideoStandard

/-- For every contents of chip and mirror, every argument and every answers: a setting changes its own bits only exactly
    when it is not the widescreen setting over a byte with other flags. -/
theorem SettingCall.minimal_iff_spares (call : SettingCall) (s : EepromState) : call.Minimal s ↔ call.Spares s := by
  cases call with
  | widescreen answers enable => exact widescreen_minimal_iff answers enable s
  | videoStandard answers standard => exact iff_of_true (videoStandard_minimal answers standard s) trivial

/-- Chip and mirror with the letterbox flag alone. -/
def letterbox : EepromState := ⟨fun i => if i = 0x96 then 0x10 else 0, fun i => if i = 0x96 then 0x10 else 0⟩

/-- Widescreen replaces it, on the chip and in the mirror. -/
theorem widescreen_loses_letterbox :
    ((SettingCall.widescreen promptAnswers 1).apply letterbox).chip 0x96 = 0x01 ∧
      ((SettingCall.widescreen promptAnswers 1).apply letterbox).mirror 0x96 = 0x01 ∧
      ¬ (SettingCall.widescreen promptAnswers 1).Minimal letterbox := by
  refine ⟨by decide, by decide, fun h => ?_⟩
  exact absurd (h.mirror 0x96 (by decide)) (by decide)

end Cromwell.Eeprom
