/-
Module: Cromwell.Eeprom.Checksums
Layer: Proofs
Purpose: The two checksums of the EEPROM over any sequence of settings. A call that succeeds writes exactly the bytes it
  means to; each setting writes its own bytes, which lie in the area of the checksum that it computes anew, and nothing
  in the area of the other one.
Imports: Cromwell.Eeprom.Settings
Trusted boundary: human-reviewed statement (Mirrored, Checksum2Valid, Checksum3Valid)
Main exports: transfer_byte, writeToSMBus_spec, writeRegisters_spec, SettingCall, checksums_stay_valid
-/
import Cromwell.Eeprom.Settings

namespace Cromwell.Eeprom

open ByteMemory

/-! ### Writes to the chip -/

/-- One of the fifty attempts succeeds. -/
def Succeeds (answers : Nat → Answer) : Prop := ∃ i < 50, (answers i).status &&& 0x10 ≠ 0

/-- The attempts leave the chip as it is, or as one transfer makes it. -/
theorem attemptLoop_chip (answers : Nat → Answer) (transfer : Mem → Mem)
    (idempotent : ∀ chip, transfer (transfer chip) = transfer chip) (n attempt : Nat) (chip : Mem) :
    ((∃ i, attempt ≤ i ∧ i < attempt + n ∧ ((answers i).status &&& 0x10 ≠ 0 ∨ (answers i).reached = true)) →
        (attemptLoop answers transfer n attempt chip).1 = transfer chip) ∧
      ((∀ i, attempt ≤ i → i < attempt + n → ¬ ((answers i).status &&& 0x10 ≠ 0 ∨ (answers i).reached = true)) →
        (attemptLoop answers transfer n attempt chip).1 = chip) := by
  induction n generalizing attempt chip with
  | zero =>
      refine ⟨?_, fun _ => rfl⟩
      rintro ⟨i, hlo, hhi, -⟩
      omega
  | succ n ih =>
      rw [attemptLoop]
      by_cases hok : (answers attempt).status &&& 0x10 ≠ 0
      · rw [if_pos hok]
        exact ⟨fun _ => rfl, fun hnone => absurd (Or.inl hok) (hnone attempt (Nat.le_refl _) (by omega))⟩
      · rw [if_neg hok]
        cases hreached : (answers attempt).reached with
        | true =>
            rw [if_pos rfl]
            refine ⟨fun _ => ?_, fun hnone => absurd (Or.inr hreached) (hnone attempt (Nat.le_refl _) (by omega))⟩
            by_cases hmore : ∃ i, attempt + 1 ≤ i ∧ i < attempt + 1 + n ∧
                ((answers i).status &&& 0x10 ≠ 0 ∨ (answers i).reached = true)
            · rw [(ih (attempt + 1) (transfer chip)).1 hmore, idempotent]
            · exact (ih (attempt + 1) (transfer chip)).2 fun i hlo hhi h => hmore ⟨i, hlo, hhi, h⟩
        | false =>
            rw [if_neg Bool.false_ne_true]
            refine ⟨?_, fun hnone => (ih (attempt + 1) chip).2 fun i hlo hhi => hnone i (by omega) (by omega)⟩
            rintro ⟨i, hlo, hhi, hi⟩
            have hne : i ≠ attempt := by
              rintro rfl
              rcases hi with hi | hi
              · exact hok hi
              · exact absurd (hreached.symm.trans hi) Bool.false_ne_true
            exact (ih (attempt + 1) chip).1 ⟨i, by omega, by omega, hi⟩

/-- An attempt that succeeds ends them. -/
theorem attemptLoop_succeeds (answers : Nat → Answer) (transfer : Mem → Mem) (n attempt : Nat) (chip : Mem)
    (succeeds : ∃ i, attempt ≤ i ∧ i < attempt + n ∧ (answers i).status &&& 0x10 ≠ 0) :
    (attemptLoop answers transfer n attempt chip).2 = true := by
  obtain ⟨i, hlo, hhi, hok⟩ := succeeds
  induction n generalizing attempt chip with
  | zero =>
      omega
  | succ n ih =>
      rw [attemptLoop]
      split
      case isTrue _ =>
        rfl
      case isFalse hfailed =>
        have hne : i ≠ attempt := fun h => hfailed (h ▸ hok)
        exact ih (attempt + 1) _ (by omega) (by omega)

/-- When an attempt succeeds, the transfer has been made, however often. -/
theorem attemptLoop_spec (answers : Nat → Answer) (transfer : Mem → Mem)
    (idempotent : ∀ chip, transfer (transfer chip) = transfer chip) (n attempt : Nat) (chip : Mem)
    (succeeds : ∃ i, attempt ≤ i ∧ i < attempt + n ∧ (answers i).status &&& 0x10 ≠ 0) :
    attemptLoop answers transfer n attempt chip = (transfer chip, true) := by
  have hsucceeds := attemptLoop_succeeds answers transfer n attempt chip succeeds
  obtain ⟨i, hlo, hhi, hok⟩ := succeeds
  have hchip := (attemptLoop_chip answers transfer idempotent n attempt chip).1 ⟨i, hlo, hhi, Or.inl hok⟩
  exact Prod.ext hchip hsucceeds

theorem store_store (m : Mem) (a : Nat) (b : UInt8) : (m.store a b).store a b = m.store a b := by
  funext x
  simp only [Mem.store]
  split <;> rfl

/-- The transfer of a byte. -/
theorem transfer_byte {bRegister size : Nat} (hregister : bRegister < 256) (h2 : size ≠ 2) (h4 : size ≠ 4) (value : UInt8)
    (chip : Mem) :
    ((smBusOutputs 0x54 bRegister size value.toNat).foldl SmBus.output ⟨0, 0, 0, []⟩).transfer (smBusCommand size) chip =
      chip.store bRegister value := by
  have houtputs : smBusOutputs 0x54 bRegister size value.toNat =
      [(4, 0xa8), (8, bRegister), (6, value.toNat)] := by
    have hvalue := value.toNat_lt
    unfold smBusOutputs
    rw [Nat.mod_eq_of_lt hregister]
    split
    · exact absurd rfl h4
    · exact absurd rfl h2
    · rw [Nat.mod_eq_of_lt hvalue]
      rfl
  have hcommand : smBusCommand size = 0x1a := by
    unfold smBusCommand
    split
    · exact absurd rfl h4
    · exact absurd rfl h2
    · rfl
  rw [houtputs, hcommand]
  change SmBus.transfer ⟨0xa8, bRegister, value.toNat, []⟩ 0x1a chip = _
  rw [SmBus.transfer, if_pos rfl]
  dsimp only
  rw [UInt8.ofNat_toNat]

/-- A successful write of a byte. -/
theorem writeToSMBus_spec {answers : Nat → Answer} (succeeds : Succeeds answers) {bRegister size : Nat}
    (hregister : bRegister < 256) (h2 : size ≠ 2) (h4 : size ≠ 4) (value : UInt8) (chip : Mem) :
    writeToSMBus answers 0x54 bRegister size value.toNat chip = (chip.store bRegister value, true) := by
  obtain ⟨i, hi, hok⟩ := succeeds
  rw [writeToSMBus, ← transfer_byte hregister h2 h4 value chip]
  apply attemptLoop_spec _ _ _ 50 0 chip ⟨i, Nat.zero_le i, by omega, hok⟩
  intro chip
  rw [transfer_byte hregister h2 h4, transfer_byte hregister h2 h4, store_store]

/-- Successful writes to consecutive registers. -/
theorem writeRegisters_spec {answers : Nat → Nat → Answer} (succeeds : ∀ k, Succeeds (answers k)) {size : Nat}
    (h2 : size ≠ 2) (h4 : size ≠ 4) (first : Nat) {bRegister : Nat} (values : List UInt8)
    (hregister : bRegister + values.length ≤ 256) (chip : Mem) :
    writeRegisters answers size first bRegister values chip =
      chip.write bRegister values.length fun i => values.getD i 0 := by
  induction values generalizing first bRegister chip with
  | nil =>
      exact (Mem.write_zero chip bRegister _).symm
  | cons value rest ih =>
      rw [List.length_cons] at hregister
      rw [writeRegisters, writeToSMBus_spec (succeeds first) (by omega) h2 h4, ih (first + 1) (by omega)]
      funext x
      simp only [Mem.write, Mem.store, List.length_cons]
      by_cases hx : x = bRegister
      · subst hx
        rw [if_neg (by omega), if_pos rfl, if_pos (by omega), Nat.sub_self, List.getD_cons_zero]
      · by_cases hin : bRegister + 1 ≤ x ∧ x < bRegister + 1 + rest.length
        · rw [if_pos hin, if_pos (by omega), show x - bRegister = x - (bRegister + 1) + 1 by omega, List.getD_cons_succ]
        · rw [if_neg hin, if_neg hx, if_neg (by omega)]

/-! ### Checksums -/

/-- The checksum is about the bytes of the data. -/
theorem eepromCRC_congr {data data' : Nat → UInt8} {dataLen : Nat} (hlen : 0 < dataLen)
    (h : ∀ i < dataLen, data i = data' i) : eepromCRC data dataLen = eepromCRC data' dataLen := by
  have hdata : crcData data dataLen = crcData data' dataLen := by
    funext x
    simp only [crcData, Mem.write]
    split
    · rename_i hx
      exact h _ (by omega)
    · split
      · rename_i hx
        exact h _ (by omega)
      · rfl
  rw [eepromCRC, eepromCRC, hdata]

@[simp]
theorem eepromCRC_length (data : Nat → UInt8) (dataLen : Nat) : (eepromCRC data dataLen).length = 4 := by
  simp [eepromCRC]

/-- The bytes of the two checksums. -/
def InChecksum (i : Nat) : Prop := (0x30 ≤ i ∧ i < 0x34) ∨ (0x60 ≤ i ∧ i < 0x64)

/-- The mirror has the bytes of the chip outside the checksums. -/
def Mirrored (s : EepromState) : Prop := ∀ i < 256, ¬ InChecksum i → s.mirror i = s.chip i

/-- `Checksum2` of the chip is the checksum of the bytes `0x34` to `0x5b`. -/
def Checksum2Valid (chip : Mem) : Prop := chip.bytesFrom 0x30 4 = eepromCRC (fun i => chip (0x34 + i)) 0x28

/-- `Checksum3` of the chip is the checksum of the bytes `0x64` to `0xbe`. -/
def Checksum3Valid (chip : Mem) : Prop := chip.bytesFrom 0x60 4 = eepromCRC (fun i => chip (0x64 + i)) 0x5b

/-- The bytes of a list, read back. -/
theorem bytesFrom_write_list (m : Mem) (a : Nat) (values : List UInt8) :
    (m.write a values.length fun i => values.getD i 0).bytesFrom a values.length = values := by
  rw [Mem.bytesFrom_write_self]
  refine List.ext_getElem (by simp) fun i hi _ => ?_
  simp only [List.length_map, List.length_range] at hi
  simp [List.getD_eq_getElem?_getD, hi]

/-- What the two setters do when their writes succeed. -/
theorem eepromSetWidescreen_spec {answers : Nat → Nat → Answer} (succeeds : ∀ k, Succeeds (answers k)) (enable : Int)
    (s : EepromState) :
    ∃ flag : UInt8, eepromSetWidescreen answers enable s =
      let mirror := s.mirror.store 0x96 flag
      let sum := eepromCRC (fun i => mirror (0x64 + i)) 0x5b
      ⟨mirror, (s.chip.store 0x96 flag).write 0x60 4 fun i => sum.getD i 0⟩ := by
  refine ⟨if enable ≠ 0 then 1 else 0, ?_⟩
  have hflags : EepromField.videoFlags.offset + 2 = 0x96 := by decide
  have hbias : EepromField.timeZoneBias.offset = 0x64 := by decide
  rw [eepromSetWidescreen]
  dsimp only
  rw [hflags, hbias, writeRegisters_spec succeeds (by decide) (by decide) 0 _ (by simp),
    writeRegisters_spec succeeds (by decide) (by decide) 1 _ (by rw [eepromCRC_length]; decide), eepromCRC_length]
  congr 2
  funext x
  simp only [Mem.write, Mem.store, List.length_singleton]
  by_cases hx : x = 0x96
  · subst hx
    rfl
  · rw [if_neg (by omega), if_neg hx]

theorem eepromSetVideoStandard_spec {answers : Nat → Nat → Answer} (succeeds : ∀ k, Succeeds (answers k))
    (standard : UInt32) (s : EepromState) :
    eepromSetVideoStandard answers standard s =
      let mirror := s.mirror.storeWord 0x58 standard.toNat
      let sum := eepromCRC (fun i => mirror (0x34 + i)) 0x28
      ⟨mirror, (s.chip.storeWord 0x58 standard.toNat).write 0x30 4 fun i => sum.getD i 0⟩ := by
  have hstandard : EepromField.videoStandard.offset = 0x58 := by decide
  have hserial : EepromField.serialNumber.offset = 0x34 := by decide
  rw [eepromSetVideoStandard]
  dsimp only
  rw [hstandard, hserial, writeRegisters_spec succeeds (by decide) (by decide) 0 _ (by simp),
    writeRegisters_spec succeeds (by decide) (by decide) 4 _ (by rw [eepromCRC_length]; decide), eepromCRC_length]
  congr 2
  funext x
  simp only [Mem.write, Mem.storeWord, List.length_map, List.length_range]
  split
  · rename_i hx
    rw [List.getD_eq_getElem?_getD, List.getElem?_map, List.getElem?_range (by omega)]
    rfl
  · rfl

/-- A checksum of the mirror, written in front of its area, is the checksum of the chip. -/
theorem checksum_written {mirror chip : Mem} {a len : Nat} (hlen : 0 < len)
    (h : ∀ i < len, mirror (a + 4 + i) = chip (a + 4 + i)) :
    let sum := eepromCRC (fun i => mirror (a + 4 + i)) len
    let chip' := chip.write a 4 fun i => sum.getD i 0
    chip'.bytesFrom a 4 = eepromCRC (fun i => chip' (a + 4 + i)) len := by
  intro sum chip'
  have hsum : sum.length = 4 := eepromCRC_length _ _
  have hwritten : chip'.bytesFrom a 4 = sum := by
    have hlist := bytesFrom_write_list chip a sum
    rw [hsum] at hlist
    exact hlist
  rw [hwritten]
  refine eepromCRC_congr hlen fun i hi => ?_
  rw [h i hi]
  exact (Mem.write_of_not_mem (by omega)).symm

/-- A checksum is untouched when its bytes and its area are. -/
theorem checksum_kept {chip chip' : Mem} {a len : Nat} (hlen : 0 < len)
    (h : ∀ i < len + 4, chip' (a + i) = chip (a + i))
    (valid : chip.bytesFrom a 4 = eepromCRC (fun i => chip (a + 4 + i)) len) :
    chip'.bytesFrom a 4 = eepromCRC (fun i => chip' (a + 4 + i)) len := by
  have hbytes : chip'.bytesFrom a 4 = chip.bytesFrom a 4 := Mem.bytesFrom_congr fun i hi => h i (by omega)
  rw [hbytes, valid]
  refine eepromCRC_congr hlen fun i hi => ?_
  rw [Nat.add_assoc]
  exact (h (4 + i) (by omega)).symm

/-! ### Runs -/

/-- A call of one of the two setters, with the answers of the controller to each of its writes. -/
inductive SettingCall where
  | widescreen (answers : Nat → Nat → Answer) (enable : Int)
  | videoStandard (answers : Nat → Nat → Answer) (standard : UInt32)

def SettingCall.answers : SettingCall → Nat → Nat → Answer
  | .widescreen answers _ => answers
  | .videoStandard answers _ => answers

def SettingCall.apply (s : EepromState) : SettingCall → EepromState
  | .widescreen answers enable => eepromSetWidescreen answers enable s
  | .videoStandard answers standard => eepromSetVideoStandard answers standard s

def SettingCall.IsWidescreen : SettingCall → Prop
  | .widescreen _ _ => True
  | .videoStandard _ _ => False

def SettingCall.IsVideoStandard : SettingCall → Prop
  | .widescreen _ _ => False
  | .videoStandard _ _ => True

/-- One call: the mirror stays, the checksum of the setting is right afterwards, and the other one stays right. -/
theorem SettingCall.apply_spec {s : EepromState} (mirrored : Mirrored s) (call : SettingCall)
    (succeeds : ∀ k, Succeeds (call.answers k)) :
    Mirrored (call.apply s) ∧
      (Checksum2Valid s.chip ∨ call.IsVideoStandard → Checksum2Valid (call.apply s).chip) ∧
      (Checksum3Valid s.chip ∨ call.IsWidescreen → Checksum3Valid (call.apply s).chip) := by
  cases call with
  | widescreen answers enable =>
      change ∀ k, Succeeds (answers k) at succeeds
      obtain ⟨flag, hspec⟩ := eepromSetWidescreen_spec succeeds enable s
      have hkeep : ∀ i < 256, ¬ InChecksum i → (s.mirror.store 0x96 flag) i = (s.chip.store 0x96 flag) i := by
        intro i hi hout
        simp only [Mem.store]
        split
        · rfl
        · exact mirrored i hi hout
      rw [SettingCall.apply, hspec]
      refine ⟨fun i hi hout => ?_, fun hvalid => ?_, fun _ => ?_⟩
      · dsimp only
        rw [Mem.write_of_not_mem fun h => hout (Or.inr h)]
        exact hkeep i hi hout
      · rcases hvalid with hvalid | hcall
        · refine checksum_kept (by decide) (fun i hi => ?_) hvalid
          dsimp only
          rw [Mem.write_of_not_mem (by omega), Mem.store_of_ne (by omega)]
        · exact hcall.elim
      · refine checksum_written (a := 0x60) (by decide) fun i hi => hkeep _ (by omega) ?_
        unfold InChecksum
        omega
  | videoStandard answers standard =>
      change ∀ k, Succeeds (answers k) at succeeds
      have hkeep : ∀ i < 256, ¬ InChecksum i →
          (s.mirror.storeWord 0x58 standard.toNat) i = (s.chip.storeWord 0x58 standard.toNat) i := by
        intro i hi hout
        simp only [Mem.storeWord]
        split
        · rfl
        · exact mirrored i hi hout
      rw [SettingCall.apply, eepromSetVideoStandard_spec succeeds standard s]
      refine ⟨fun i hi hout => ?_, fun _ => ?_, fun hvalid => ?_⟩
      · dsimp only
        rw [Mem.write_of_not_mem fun h => hout (Or.inl h)]
        exact hkeep i hi hout
      · refine checksum_written (a := 0x30) (by decide) fun i hi => hkeep _ (by omega) ?_
        unfold InChecksum
        omega
      · rcases hvalid with hvalid | hcall
        · refine checksum_kept (by decide) (fun i hi => ?_) hvalid
          dsimp only
          rw [Mem.write_of_not_mem (by omega)]
          simp only [Mem.storeWord]
          rw [if_neg (by omega)]
        · exact hcall.elim

/-- For every sequence of calls with any arguments: the mirror keeps up with the chip outside the checksums, and each
    checksum of the chip is right when it was right before or its setting has been made. -/
theorem checksums_stay_valid (calls : List SettingCall) (s : EepromState)
    (succeeds : ∀ call ∈ calls, ∀ k, Succeeds (call.answers k)) (mirrored : Mirrored s) :
    Mirrored (calls.foldl SettingCall.apply s) ∧
      (Checksum2Valid s.chip ∨ (∃ call ∈ calls, call.IsVideoStandard) →
        Checksum2Valid (calls.foldl SettingCall.apply s).chip) ∧
      (Checksum3Valid s.chip ∨ (∃ call ∈ calls, call.IsWidescreen) →
        Checksum3Valid (calls.foldl SettingCall.apply s).chip) := by
  induction calls generalizing s with
  | nil =>
      refine ⟨mirrored, ?_, ?_⟩
      · rintro (h | ⟨call, hcall, -⟩)
        · exact h
        · exact absurd hcall List.not_mem_nil
      · rintro (h | ⟨call, hcall, -⟩)
        · exact h
        · exact absurd hcall List.not_mem_nil
  | cons call rest ih =>
      obtain ⟨hmirrored, h2, h3⟩ := call.apply_spec mirrored (succeeds call List.mem_cons_self)
      obtain ⟨hall, hall2, hall3⟩ := ih (call.apply s) (fun c hc => succeeds c (List.mem_cons_of_mem call hc)) hmirrored
      refine ⟨hall, ?_, ?_⟩
      · rintro (h | ⟨c, hc, hkind⟩)
        · exact hall2 (Or.inl (h2 (Or.inl h)))
        · rcases List.mem_cons.mp hc with rfl | hc
          · exact hall2 (Or.inl (h2 (Or.inr hkind)))
          · exact hall2 (Or.inr ⟨c, hc, hkind⟩)
      · rintro (h | ⟨c, hc, hkind⟩)
        · exact hall3 (Or.inl (h3 (Or.inl h)))
        · rcases List.mem_cons.mp hc with rfl | hc
          · exact hall3 (Or.inl (h3 (Or.inr hkind)))
          · exact hall3 (Or.inr ⟨c, hc, hkind⟩)

/-- A controller that succeeds at once. -/
def promptAnswers : Nat → Nat → Answer := fun _ _ => ⟨0x10, false⟩

/-- Both settings on an empty chip, whose checksums are wrong at first. -/
theorem checksums_stay_valid_both :
    let s : EepromState := ⟨fun _ => 0, fun _ => 0⟩
    let calls := [SettingCall.widescreen promptAnswers 1, .videoStandard promptAnswers 0x00800300]
    Mirrored (calls.foldl SettingCall.apply s) ∧ Checksum2Valid (calls.foldl SettingCall.apply s).chip ∧
      Checksum3Valid (calls.foldl SettingCall.apply s).chip := by
  intro s calls
  have hprompt : ∀ k, Succeeds (promptAnswers k) := fun k => ⟨0, by decide, by simp [promptAnswers]⟩
  have hsucceeds : ∀ call ∈ calls, ∀ k, Succeeds (call.answers k) := by
    intro call hcall
    rcases List.mem_cons.mp hcall with rfl | hcall
    · exact hprompt
    · rw [List.mem_singleton.mp hcall]
      exact hprompt
  obtain ⟨hmirrored, h2, h3⟩ := checksums_stay_valid calls s hsucceeds fun _ _ _ => rfl
  exact ⟨hmirrored, h2 (Or.inr ⟨_, List.mem_cons_of_mem _ List.mem_cons_self, trivial⟩),
    h3 (Or.inr ⟨_, List.mem_cons_self, trivial⟩)⟩

end Cromwell.Eeprom
