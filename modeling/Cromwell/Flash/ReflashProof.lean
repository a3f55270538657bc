/-
Module: Cromwell.Flash.ReflashProof
Layer: Proofs
Purpose: A reflash leaves its retry loop only when the flash holds the image. The proof follows the
  driver: every erase attempt and every program attempt brings the chip back to array mode, a program
  attempt touches the addressed byte only, so the program loop keeps the bytes that it has already
  accepted, and the verify pass can only ask for one more round.
Imports: Cromwell.Flash.NorChip
Trusted boundary: none
Main exports: Standing, programLoop_spec, reflashLoop_spec, reflash_installs
-/
import Cromwell.Flash.NorChip

namespace Cromwell.Flash

open Comp
open ByteMemory (u32)

/-- The region a reflash works on, and the state of the driver on it: the mode of the chip, the convention
    in use, the region, and a property of the contents. -/
structure Standing (β : NorBehaviour) (start len : Nat) (M : NorMode → Prop)
    (A : (Nat → UInt8) → Prop) (s : FlashState NorChip) : Prop where
  mode : M s.dev.mode
  convention : s.pof.fDetectedUsing28xxxConventions = β.uses28
  startOffset : s.pof.dwStartOffset = start
  usedArea : s.pof.dwLengthUsedArea = len
  contents : A s.dev.array

/-- The chip is in array mode. -/
abbrev InArray (β : NorBehaviour) (start len : Nat) (A : (Nat → UInt8) → Prop) :
    FlashState NorChip → Prop :=
  Standing β start len (· = .array) A

/-- The first `k` bytes of the region hold the image. -/
def Holds (pba : Nat → UInt8) (start k : Nat) (array : Nat → UInt8) : Prop :=
  ∀ j < k, array (start + j) = pba j

/-- A property of the contents that survives any change of the byte at `dw`. -/
def StableAt (A : (Nat → UInt8) → Prop) (dw : Nat) : Prop :=
  ∀ array v, A array → A fun x => if x = dw then v else array x

theorem holds_stableAt (pba : Nat → UInt8) (start k : Nat) : StableAt (Holds pba start k) (start + k) := by
  intro array v holds j hj
  have hne : start + j ≠ start + k := by omega
  show (if start + j = start + k then v else array (start + j)) = pba j
  rw [if_neg hne]
  exact holds j hj

variable {β : NorBehaviour} {start len : Nat} {M : NorMode → Prop} {A : (Nat → UInt8) → Prop}

/-! ### Bus accesses -/

/-- A read in array mode returns the contents and changes nothing. -/
theorem readByte_spec (dw : Nat) :
    Triple (InArray β start len A) (readByte (norBus β) dw)
      (fun b s => InArray β start len A s ∧ b = s.dev.array dw) := by
  intro s hs b s' hrun
  have hread : NorChip.read β dw s.dev = (s.dev.array dw, s.dev) := by
    simp only [NorChip.read, hs.mode]
  simp only [readByte, norBus, hread, Option.some.injEq, Prod.mk.injEq] at hrun
  obtain ⟨rfl, rfl⟩ := hrun
  exact ⟨hs, rfl⟩

/-- The same where the value does not matter. -/
theorem readByte_keeps (dw : Nat) :
    Triple (InArray β start len A) (readByte (norBus β) dw) (fun _ => InArray β start len A) :=
  (readByte_spec dw).post fun _ _ h => h.1

/-- The user interface changes nothing and never asks to stop. -/
theorem notify_spec {P : FlashState NorChip → Prop} (ee : EnumEvents) (dwPos dwExtent : Nat) :
    Triple P (notify (norBus β) ee dwPos dwExtent) (fun goOn s => P s ∧ goOn = true) := by
  intro s hs b s' hrun
  simp only [notify, norBus, bootFlashUserInterface, Option.some.injEq, Prod.mk.injEq] at hrun
  obtain ⟨rfl, rfl⟩ := hrun
  exact ⟨hs, rfl⟩

theorem notify_keeps {P : FlashState NorChip → Prop} (ee : EnumEvents) (dwPos dwExtent : Nat) :
    Triple P (notify (norBus β) ee dwPos dwExtent) (fun _ => P) :=
  (notify_spec ee dwPos dwExtent).post fun _ _ h => h.1

theorem setErrorInfo_keeps (text : String) :
    Triple (Standing β start len M A) (setErrorInfo text) (fun _ => Standing β start len M A) :=
  Triple.modify fun _ hs => ⟨hs.mode, hs.convention, hs.startOffset, hs.usedArea, hs.contents⟩

/-- The chip after a list of bus writes. -/
def afterWrites (β : NorBehaviour) (writes : List (Nat × UInt8)) (c : NorChip) : NorChip :=
  writes.foldl (fun c w => NorChip.write β w.1 w.2 c) c

theorem writeBytes_eq (writes : List (Nat × UInt8)) (s : FlashState NorChip) :
    writeBytes (norBus β) writes s = some ((), { s with dev := afterWrites β writes s.dev }) := by
  induction writes generalizing s with
  | nil => rfl
  | cons w rest ih => exact ih { s with dev := NorChip.write β w.1 w.2 s.dev }

/-- A command that takes the chip from `M` to `M'`, with the same region and convention. -/
theorem writeBytes_spec {M' : NorMode → Prop} {A' : (Nat → UInt8) → Prop}
    (writes : List (Nat × UInt8))
    (step : ∀ c : NorChip, M c.mode → A c.array →
      M' (afterWrites β writes c).mode ∧ A' (afterWrites β writes c).array) :
    Triple (Standing β start len M A) (writeBytes (norBus β) writes)
      (fun _ => Standing β start len M' A') := by
  intro s hs a s' hrun
  rw [writeBytes_eq] at hrun
  cases hrun
  obtain ⟨hmode, hcontents⟩ := step s.dev hs.mode hs.contents
  exact ⟨hmode, hs.convention, hs.startOffset, hs.usedArea, hcontents⟩

/-! ### 29xxx commands -/

/-- A 29xxx chip that may still be working. -/
def Working (mode : NorMode) : Prop := mode = .array ∨ ∃ reads, 0 < reads ∧ mode = .busy reads

/-- While the chip is working, the next read will not show bit 6 as it is in `b`. -/
def Toggling (b : UInt8) (mode : NorMode) : Prop :=
  mode = .array ∨ ∃ reads, 0 < reads ∧ mode = .busy reads ∧ NorChip.toggle reads ≠ b &&& 0x40

theorem executing_working (k : Nat) : Working (NorChip.executing β k) := by
  unfold NorChip.executing
  by_cases hbusy : β.busyReads k = 0
  · rw [if_pos hbusy]
    exact Or.inl rfl
  · rw [if_neg hbusy]
    exact Or.inr ⟨_, Nat.pos_of_ne_zero hbusy, rfl⟩

theorem toggle_bit (x : UInt8) (reads : Nat) :
    ((x &&& 0xbf) ||| NorChip.toggle reads) &&& 0x40 = NorChip.toggle reads := by
  unfold NorChip.toggle
  split
  · revert x
    decide +kernel
  · revert x
    decide +kernel

theorem flip_bit (b : UInt8) (reads : Nat) (differs : NorChip.toggle reads ≠ b &&& 0x40) :
    (b ^^^ 0x40) &&& 0x40 = NorChip.toggle reads := by
  unfold NorChip.toggle at *
  split at differs
  · rw [if_pos (by assumption)]
    revert b
    decide +kernel
  · rw [if_neg (by assumption)]
    revert b
    decide +kernel

theorem toggle_pred (reads : Nat) (pos : 0 < reads) :
    NorChip.toggle (reads - 1) ≠ NorChip.toggle reads := by
  unfold NorChip.toggle
  rcases Nat.mod_two_eq_zero_or_one reads with h | h
  · have h' : (reads - 1) % 2 ≠ 0 := by omega
    rw [if_neg h', if_pos h]
    decide
  · have h' : (reads - 1) % 2 = 0 := by omega
    rw [if_pos h', if_neg (by omega)]
    decide

/-- A read of a busy chip shows the toggle bit, and the next one will show the other value. -/
theorem readByte_toggling (dw : Nat) :
    Triple (Standing β start len Working A) (readByte (norBus β) dw)
      (fun b => Standing β start len (Toggling b) A) := by
  intro s hs b s' hrun
  rcases hs.mode with hmode | ⟨reads, hpos, hmode⟩
  · have harr : InArray β start len A s := { hs with mode := hmode }
    have hread := readByte_spec dw s harr b s' hrun
    exact { hread.1 with mode := Or.inl hread.1.mode }
  · simp only [readByte, norBus, NorChip.read, hmode, Option.some.injEq, Prod.mk.injEq] at hrun
    obtain ⟨rfl, rfl⟩ := hrun
    refine ⟨?_, hs.convention, hs.startOffset, hs.usedArea, hs.contents⟩
    by_cases hlast : reads ≤ 1
    · exact Or.inl (by simp [hlast])
    · refine Or.inr ⟨reads - 1, by omega, by simp [hlast], ?_⟩
      rw [toggle_bit]
      exact toggle_pred reads hpos

/-- The wait loop ends only when the chip is back in array mode. -/
theorem toggleWait_spec (dw fuel : Nat) : ∀ (b : UInt8) (dwCountTries : Nat),
    Triple (Standing β start len (Toggling b) A) (toggleWait (norBus β) dw fuel b dwCountTries)
      (fun _ => InArray β start len A) := by
  induction fuel with
  | zero =>
      intro b dwCountTries
      exact Triple.stuck
  | succ fuel ih =>
      intro b dwCountTries s hs
      -- what the read returned decides the rest, so the two modes are followed by hand
      rcases hs.mode with hmode | ⟨reads, hpos, hmode, hdiffers⟩
      · have harr : InArray β start len A s := { hs with mode := hmode }
        refine (Triple.bind (readByte_keeps dw) fun r => Triple.ite (fun _ => ?_) fun _ => ?_) s harr
        · exact (ih (b ^^^ 0x40) _).weaken (fun _ h => { h with mode := Or.inl h.mode }) fun _ _ h => h
        · exact Triple.pure fun _ h => h
      · intro n s' hrun
        have hnext : ∀ r s₁, readByte (norBus β) dw s = some (r, s₁) →
            Standing β start len (Toggling r) A s₁ :=
          readByte_toggling dw s { hs with mode := Or.inr ⟨reads, hpos, hmode⟩ }
        simp only [toggleWait, bind, readByte, norBus, NorChip.read, hmode] at hrun hnext
        specialize hnext _ _ rfl
        rw [toggle_bit, if_pos hdiffers] at hrun
        refine ih (b ^^^ 0x40) _ _ { hnext with mode := ?_ } n s' hrun
        rcases hnext.mode with hdone | ⟨reads', hpos', hmode', hdiffers'⟩
        · exact Or.inl hdone
        · refine Or.inr ⟨reads', hpos', hmode', ?_⟩
          rwa [flip_bit b reads hdiffers, ← toggle_bit (β.status s.dev.polls) reads]

/-- The six cycles of a 29xxx erase reach the chip as one erase command. -/
theorem erase_writes29 (uses29 : β.uses28 = false) (dw : Nat) (v : UInt8)
    (command : v = 0x30 ∨ v = 0x50 ∨ dw = 0x5555 ∧ v = 0x10) (c : NorChip) (mode : c.mode = .array) :
    Working (afterWrites β (eraseUnlock ++ [(dw, v)]) c).mode := by
  have hlast : ∀ c : NorChip, c.mode = .eraseUnlocked2 →
      Working (NorChip.write29 β dw v c).mode := by
    intro c hc
    simp only [NorChip.write29, hc]
    rcases command with h | h | ⟨ha, hv⟩
    · rw [if_pos (Or.inl h)]
      exact executing_working _
    · rw [if_pos (Or.inr h)]
      exact executing_working _
    · rw [if_neg (by rw [hv]; decide), if_pos ⟨ha, hv⟩]
      exact executing_working _
  simp only [afterWrites, eraseUnlock, List.cons_append, List.nil_append, List.foldl_cons,
    List.foldl_nil, NorChip.write, uses29, Bool.false_eq_true, if_false]
  apply hlast
  simp [NorChip.write29, mode]

/-- The reset sequence leaves a chip in array mode where it is. -/
theorem reset_writes29 (uses29 : β.uses28 = false) (c : NorChip) (mode : c.mode = .array) :
    (afterWrites β resetUnlock c).mode = .array := by
  simp [afterWrites, resetUnlock, NorChip.write, uses29, NorChip.write29, mode]

/-- A 29xxx program sequence changes the addressed byte only. -/
theorem program_writes29 (uses29 : β.uses28 = false) (dw : Nat) (data : UInt8) (stable : StableAt A dw)
    (c : NorChip) (mode : c.mode = .array) (contents : A c.array) :
    let c' := afterWrites β [(0x5555, 0xaa), (0x2aaa, 0x55), (0x5555, 0xa0), (dw, data)] c
    Working c'.mode ∧ A c'.array := by
  simp only [afterWrites, List.foldl_cons, List.foldl_nil, NorChip.write, uses29, Bool.false_eq_true,
    if_false]
  simp only [NorChip.write29, mode, and_self, if_true]
  exact ⟨executing_working _, stable _ _ contents⟩

/-- The chip takes the driver's commands and is in array mode, whatever it holds. -/
abbrev Ready (β : NorBehaviour) (start len : Nat) : FlashState NorChip → Prop :=
  InArray β start len fun _ => True

theorem eraseCommand29_spec (fuel dw : Nat) (command : List (Nat × UInt8))
    (works : ∀ c : NorChip, c.mode = .array → Working (afterWrites β command c).mode) :
    Triple (Ready β start len) (eraseCommand29 (norBus β) fuel dw command)
      (fun _ => Ready β start len) :=
  Triple.bind (writeBytes_spec command fun c hmode _ => ⟨works c hmode, trivial⟩) fun _ =>
    Triple.bind (readByte_toggling dw) fun b => toggleWait_spec dw fuel b 0

theorem eraseAttempt29_spec (uses29 : β.uses28 = false) (fuel dw tries : Nat) :
    Triple (Ready β start len) (eraseAttempt29 (norBus β) fuel dw tries)
      (fun _ => Ready β start len) := by
  have again : ∀ (a : Nat) (v : UInt8), v = 0x30 ∨ v = 0x50 ∨ a = 0x5555 ∧ v = 0x10 →
      ∀ c : NorChip, c.mode = .array →
        Working (afterWrites β (resetUnlock ++ eraseUnlock ++ [(a, v)]) c).mode := by
    intro a v hv c hmode
    rw [List.append_assoc, afterWrites, List.foldl_append]
    exact erase_writes29 uses29 a v hv _ (reset_writes29 uses29 c hmode)
  refine Triple.bind (eraseCommand29_spec fuel dw _
    (erase_writes29 uses29 dw 0x50 (Or.inr (Or.inl rfl)))) fun n => ?_
  refine Triple.bind (Q := fun _ => Ready β start len) (Triple.ite (fun _ => ?_) fun _ => ?_) fun n' => ?_
  · exact eraseCommand29_spec fuel dw _ (again dw 0x30 (Or.inl rfl))
  · exact Triple.pure fun _ h => h
  · refine Triple.get fun s _ => ?_
    refine Triple.ite (fun _ => ?_) fun _ => Triple.pure fun _ h => h
    exact Triple.bind (eraseCommand29_spec fuel dw _ (again 0x5555 0x10 (Or.inr (Or.inr ⟨rfl, rfl⟩))))
      fun _ => Triple.pure fun _ h => h

theorem programAttempt29_spec (uses29 : β.uses28 = false) (fuel dw : Nat) (data : UInt8)
    (stable : StableAt A dw) :
    Triple (InArray β start len A) (programAttempt29 (norBus β) fuel dw data)
      (fun _ => InArray β start len A) := by
  refine Triple.bind (writeBytes_spec _ (program_writes29 uses29 dw data stable)) fun _ => ?_
  refine Triple.bind (readByte_toggling dw) fun b => ?_
  exact Triple.bind (toggleWait_spec dw fuel b 0) fun _ => Triple.pure fun _ h => h

/-! ### 28xxx commands -/

/-- The status register is on the bus. -/
abbrev InStatus (β : NorBehaviour) (start len : Nat) (A : (Nat → UInt8) → Prop) :
    FlashState NorChip → Prop :=
  Standing β start len (· = .statusRegister) A

theorem readByte_status (dw : Nat) :
    Triple (InStatus β start len A) (readByte (norBus β) dw) (fun _ => InStatus β start len A) := by
  intro s hs b s' hrun
  simp only [readByte, norBus, NorChip.read, hs.mode, Option.some.injEq, Prod.mk.injEq] at hrun
  obtain ⟨rfl, rfl⟩ := hrun
  exact ⟨rfl, hs.convention, hs.startOffset, hs.usedArea, hs.contents⟩

theorem spinErase28_spec (dw fuel : Nat) : ∀ (b : UInt8) (n : Nat),
    Triple (InStatus β start len A) (spinErase28 (norBus β) dw fuel b n)
      (fun _ => InStatus β start len A) := by
  induction fuel with
  | zero =>
      intro b n
      exact Triple.stuck
  | succ fuel ih =>
      intro b n
      refine Triple.ite (fun _ => ?_) fun _ => Triple.pure fun _ h => h
      exact Triple.bind (readByte_status dw) fun b => ih b (n - 1)

theorem spinProgram28_spec (dw fuel : Nat) : ∀ (b : UInt8) (ttl n : Nat),
    Triple (InStatus β start len A) (spinProgram28 (norBus β) dw fuel b ttl n)
      (fun _ => InStatus β start len A) := by
  induction fuel with
  | zero =>
      intro b ttl n
      exact Triple.stuck
  | succ fuel ih =>
      intro b ttl n
      refine Triple.ite (fun _ => ?_) fun _ => Triple.pure fun _ h => h
      exact Triple.bind (readByte_status dw) fun b => ih b _ (n - 1)

/-- Clear status, then back to array mode. -/
theorem arrayMode_writes28 (uses28 : β.uses28 = true) (a : Nat) :
    Triple (InStatus β start len A) (writeBytes (norBus β) [(a, 0x50), (a, 0xff)])
      (fun _ => InArray β start len A) := by
  refine writeBytes_spec _ fun c hmode hcontents => ?_
  simp [afterWrites, NorChip.write, uses28, NorChip.write28, hmode, hcontents]

/-- The events of a failed attempt, in array mode. -/
theorem notifyFailure_keeps (dw : Nat) (error theEnd : EnumEvents) (dwPos : ObjectFlash → Nat)
    (dwExtent : UInt8 → Nat) :
    Triple (InArray β start len A) (notifyFailure (norBus β) dw error theEnd dwPos dwExtent)
      (fun _ => InArray β start len A) := by
  refine Triple.bind (readByte_keeps dw) fun read => ?_
  refine Triple.get fun s _ => ?_
  refine Triple.bind (notify_keeps _ _ _) fun _ => ?_
  exact Triple.bind (notify_keeps _ _ _) fun _ => Triple.pure fun _ h => h

theorem eraseAttempt28_spec (uses28 : β.uses28 = true) (fuel dw : Nat) :
    Triple (Ready β start len) (eraseAttempt28 (norBus β) fuel dw) (fun _ => Ready β start len) := by
  refine Triple.bind (Q := fun _ => InStatus β start len fun _ => True)
    (writeBytes_spec _ fun c hmode _ => ?_) fun _ => ?_
  · simp [afterWrites, NorChip.write, uses28, NorChip.write28, hmode]
  refine Triple.bind (spinErase28_spec dw fuel _ _) fun b => ?_
  refine Triple.bind (arrayMode_writes28 uses28 0x5555) fun _ => ?_
  refine Triple.ite (fun _ => ?_) fun _ => Triple.pure fun _ h => h
  refine Triple.bind (notifyFailure_keeps dw _ _ _ _) fun _ => ?_
  exact Triple.bind (setErrorInfo_keeps _) fun _ => Triple.pure fun _ h => h

theorem programAttempt28_spec (uses28 : β.uses28 = true) (fuel dw : Nat) (data : UInt8)
    (stable : StableAt A dw) :
    Triple (InArray β start len A) (programAttempt28 (norBus β) fuel dw data)
      (fun _ => InArray β start len A) := by
  refine Triple.bind (Q := fun _ => InStatus β start len A)
    (writeBytes_spec _ fun c hmode hcontents => ?_) fun _ => ?_
  · simp only [afterWrites, List.foldl_cons, List.foldl_nil, NorChip.write, uses28, if_true]
    have hsetup : (NorChip.write28 β dw 0x40 c) = { c with mode := .programSetup } := by
      simp [NorChip.write28, hmode]
    rw [hsetup]
    exact ⟨rfl, stable _ _ hcontents⟩
  refine Triple.bind (spinProgram28_spec dw fuel _ _ _) fun r => ?_
  refine Triple.bind (arrayMode_writes28 uses28 dw) fun _ => ?_
  refine Triple.ite (fun _ => ?_) fun _ => Triple.pure fun _ h => h
  refine Triple.bind (notifyFailure_keeps dw _ _ _ _) fun _ => ?_
  exact Triple.bind (setErrorInfo_keeps _) fun _ => Triple.pure fun _ h => h

/-! ### The loops of the driver -/

theorem eraseAttempt_spec (fuel dw tries : Nat) :
    Triple (Ready β start len) (eraseAttempt (norBus β) fuel dw tries) (fun _ => Ready β start len) := by
  refine Triple.get fun s hs => ?_
  refine Triple.ite (fun h28 => ?_) fun h29 => ?_
  · exact eraseAttempt28_spec (hs.convention ▸ h28) fuel dw
  · have uses29 : β.uses28 = false := by
      rw [← hs.convention]
      exact Bool.eq_false_iff.mpr h29
    exact Triple.bind (eraseAttempt29_spec uses29 fuel dw tries) fun _ => Triple.pure fun _ h => h

theorem programAttempt_spec (fuel dw : Nat) (data : UInt8) (stable : StableAt A dw) :
    Triple (InArray β start len A) (programAttempt (norBus β) fuel dw data)
      (fun _ => InArray β start len A) := by
  refine Triple.get fun s hs => ?_
  refine Triple.ite (fun h28 => ?_) fun h29 => ?_
  · exact programAttempt28_spec (hs.convention ▸ h28) fuel dw data stable
  · have uses29 : β.uses28 = false := by
      rw [← hs.convention]
      exact Bool.eq_false_iff.mpr h29
    exact Triple.bind (programAttempt29_spec uses29 fuel dw data stable) fun _ =>
      Triple.pure fun _ h => h

theorem notifyEvery1K_keeps {P : FlashState NorChip → Prop} (ee : EnumEvents) (dw pos extent : Nat) :
    Triple P (notifyEvery1K (norBus β) ee dw pos extent) (fun _ => P) :=
  Triple.ite (fun _ => notify_keeps _ _ _) fun _ => Triple.pure fun _ h => h

theorem eraseGiveUp_spec (dw : Nat) :
    Triple (InArray β start len A) (eraseGiveUp (norBus β) dw) (fun _ => InArray β start len A) := by
  refine Triple.bind (notifyFailure_keeps dw _ _ _ _) fun _ => ?_
  refine Triple.bind (readByte_keeps dw) fun _ => ?_
  exact Triple.bind (setErrorInfo_keeps _) fun _ => Triple.pure fun _ h => h

/-- The erase loop ends with the chip in array mode, whatever it erased. -/
theorem eraseLoop_spec (spin fuel : Nat) : ∀ dw dwLen dwLastEraseAddress tries : Nat,
    Triple (Ready β start len) (eraseLoop (norBus β) spin fuel dw dwLen dwLastEraseAddress tries)
      (fun _ => Ready β start len) := by
  induction fuel with
  | zero =>
      intro dw dwLen last tries
      exact Triple.stuck
  | succ fuel ih =>
      intro dw dwLen last tries
      refine Triple.ite (fun _ => notify_keeps _ _ _) fun _ => ?_
      refine Triple.bind (readByte_keeps dw) fun b => Triple.ite (fun _ => ?_) fun _ => ?_
      · refine Triple.ite (fun _ => ?_) fun _ => ?_
        · refine Triple.ite (fun _ => eraseGiveUp_spec dw) fun _ => ?_
          refine Triple.bind (eraseAttempt_spec spin dw _) fun more => Triple.ite (fun _ => ?_) fun _ => ?_
          · exact ih _ _ _ _
          · exact Triple.pure fun _ h => h
        · refine Triple.bind (eraseAttempt_spec spin dw _) fun more => Triple.ite (fun _ => ?_) fun _ => ?_
          · exact ih _ _ _ _
          · exact Triple.pure fun _ h => h
      · refine Triple.get fun s _ => ?_
        refine Triple.bind (notifyEvery1K_keeps _ _ _ _) fun goOn => Triple.ite (fun _ => ?_) fun _ => ?_
        · exact ih _ _ _ _
        · exact Triple.bind (setErrorInfo_keeps _) fun _ => Triple.pure fun _ h => h

theorem bootFlashEraseMinimalRegion_spec (fuel : Nat) :
    Triple (Ready β start len) (bootFlashEraseMinimalRegion (norBus β) fuel)
      (fun _ => Ready β start len) := by
  refine Triple.bind (setErrorInfo_keeps _) fun _ => ?_
  refine Triple.bind (notify_keeps _ _ _) fun goOn => Triple.ite (fun _ => ?_) fun _ => ?_
  · exact Triple.get fun s _ => eraseLoop_spec fuel fuel _ _ _ _
  · exact Triple.bind (setErrorInfo_keeps _) fun _ => Triple.pure fun _ h => h

/-- What a program run that reports success leaves behind. -/
def Programmed (β : NorBehaviour) (start len : Nat) (pba : Nat → UInt8) (ok : Bool)
    (s : FlashState NorChip) : Prop :=
  Ready β start len s ∧ (ok = true → Holds pba start len s.dev.array)

theorem InArray.ready {s : FlashState NorChip} (h : InArray β start len A s) : Ready β start len s :=
  { h with contents := trivial }

/-- The invariant of the program loop: the bytes before `dwSrc` are in place. An attempt at the next byte
    cannot disturb them, and the loop moves on only when that byte reads back right. -/
theorem programLoop_spec (pba : Nat → UInt8) (fits : start + len < 2 ^ 32) (spin fuel : Nat) :
    ∀ dwSrc dwLen dwLastProgramAddress tries : Nat, dwSrc + dwLen = len →
      Triple (InArray β start len (Holds pba start dwSrc))
        (programLoop (norBus β) pba spin fuel (start + dwSrc) dwLen dwSrc dwLastProgramAddress tries)
        (Programmed β start len pba) := by
  induction fuel with
  | zero =>
      intro dwSrc dwLen last tries _
      exact Triple.stuck
  | succ fuel ih =>
      intro dwSrc dwLen last tries hsum
      have failed : ∀ s, InArray β start len (Holds pba start dwSrc) s →
          Programmed β start len pba false s :=
        fun s hs => ⟨hs.ready, fun h => absurd h (by decide)⟩
      have hstable : StableAt (Holds pba start dwSrc) (start + dwSrc) := holds_stableAt pba start dwSrc
      refine Triple.ite (fun hdone => ?_) fun hleft => ?_
      · refine Triple.pure fun s hs => ⟨hs.ready, fun _ => ?_⟩
        have hall : dwSrc = len := by omega
        exact hall ▸ hs.contents
      refine Triple.bind (readByte_spec (start + dwSrc)) fun b => Triple.ite (fun _ => ?_) fun hmatch => ?_
      · -- the byte is not right yet: try again at the same place
        refine Triple.weaken (P := InArray β start len (Holds pba start dwSrc))
          (Triple.ite (fun _ => ?_) fun _ => ?_) (fun s hs => hs.1) fun _ _ h => h
        · refine Triple.ite (fun _ => ?_) fun _ => ?_
          · refine Triple.bind (notifyFailure_keeps _ _ _ _ _) fun _ => ?_
            refine Triple.bind (readByte_keeps _) fun _ => ?_
            exact Triple.bind (setErrorInfo_keeps _) fun _ => Triple.pure failed
          · refine Triple.bind (programAttempt_spec spin _ _ hstable) fun more =>
              Triple.ite (fun _ => ?_) fun _ => Triple.pure failed
            exact ih dwSrc dwLen _ _ hsum
        · refine Triple.bind (programAttempt_spec spin _ _ hstable) fun more =>
            Triple.ite (fun _ => ?_) fun _ => Triple.pure failed
          exact ih dwSrc dwLen _ _ hsum
      · -- the byte is right: one more byte of the image is in place
        have hnext : ∀ s, InArray β start len (Holds pba start dwSrc) s ∧
            b = s.dev.array (start + dwSrc) → InArray β start len (Holds pba start (dwSrc + 1)) s := by
          rintro s ⟨hs, hb⟩
          refine { hs with contents := fun j hj => ?_ }
          rcases Nat.lt_succ_iff_lt_or_eq.mp hj with h | rfl
          · exact hs.contents j h
          · rw [← hb]
            exact not_not.mp hmatch
        refine Triple.weaken (P := InArray β start len (Holds pba start (dwSrc + 1))) ?_ hnext
          fun _ _ h => h
        refine Triple.get fun s _ => ?_
        refine Triple.bind (notifyEvery1K_keeps _ _ _ _) fun goOn => Triple.ite (fun _ => ?_) fun _ => ?_
        · have hdw : u32 (start + dwSrc + 1) = start + (dwSrc + 1) := Nat.mod_eq_of_lt (by omega)
          have hsrc : u32 (dwSrc + 1) = dwSrc + 1 := Nat.mod_eq_of_lt (by omega)
          rw [hdw, hsrc]
          exact ih (dwSrc + 1) (dwLen - 1) _ _ (by omega)
        · refine Triple.bind (setErrorInfo_keeps _) fun _ => Triple.pure fun s hs => ?_
          exact ⟨InArray.ready hs, fun h => absurd h (by decide)⟩

theorem bootFlashProgram_spec (fuel : Nat) (pba : Nat → UInt8) (fits : start + len < 2 ^ 32) :
    Triple (Ready β start len) (bootFlashProgram (norBus β) fuel pba) (Programmed β start len pba) := by
  refine Triple.bind (setErrorInfo_keeps _) fun _ => ?_
  refine Triple.bind (notify_keeps _ _ _) fun goOn => Triple.ite (fun _ => ?_) fun _ => ?_
  · refine Triple.get fun s hs => ?_
    rw [hs.startOffset, hs.usedArea]
    refine (programLoop_spec pba fits fuel fuel 0 len _ _ (Nat.zero_add len)).weaken (fun t ht => ?_)
      fun _ _ h => h
    exact { ht with contents := fun j hj => absurd hj (Nat.not_lt_zero j) }
  · refine Triple.bind (setErrorInfo_keeps _) fun _ => Triple.pure fun s hs => ?_
    exact ⟨hs, fun h => absurd h (by decide)⟩

/-- The verify pass reads only, and it never clears `fMore`. -/
theorem verify_spec (pba : Nat → UInt8) (remaining : Nat) : ∀ (address : Nat) (fMore : Bool),
    Triple (InArray β start len A) (verify (norBus β) pba remaining address fMore)
      (fun more s => InArray β start len A s ∧ (fMore = true → more = true)) := by
  induction remaining with
  | zero =>
      intro address fMore
      exact Triple.pure fun s hs => ⟨hs, fun h => h⟩
  | succ remaining ih =>
      intro address fMore
      refine Triple.bind (readByte_keeps address) fun b => ?_
      refine (ih (address + 1) _).post fun more s hs => ⟨hs.1, fun h => hs.2 ?_⟩
      rw [h, Bool.true_or]

theorem eraseAndProgram_spec (fuel : Nat) (pba : Nat → UInt8) (fits : start + len < 2 ^ 32) :
    Triple (Ready β start len) (eraseAndProgram (norBus β) fuel pba)
      (fun fMore s => Programmed β start len pba (!fMore) s) := by
  refine Triple.bind (bootFlashEraseMinimalRegion_spec fuel) fun erased =>
    Triple.ite (fun _ => ?_) fun _ => ?_
  · refine Triple.bind (bootFlashProgram_spec fuel pba fits) fun programmed => ?_
    exact Triple.pure fun s hs => by rwa [Bool.not_not]
  · exact Triple.pure fun s hs => ⟨hs, fun h => absurd h (by decide)⟩

/-- One pass of the retry loop. -/
theorem reflashPass_spec (fuel : Nat) (pba : Nat → UInt8) (fits : start + len < 2 ^ 32) :
    Triple (Ready β start len) (reflashPass (norBus β) fuel pba len)
      (fun fMore s => Programmed β start len pba (!fMore) s) := by
  refine Triple.bind (eraseAndProgram_spec fuel pba fits) fun fMore s hs more s' hrun => ?_
  -- the verify pass leaves the contents as they are, so what held before it holds after it
  have harr : InArray β start len (fun array => (!fMore) = true → Holds pba start len array) s :=
    { hs.1 with contents := hs.2 }
  obtain ⟨hs', hmore⟩ := verify_spec pba len 0 fMore s harr more s' hrun
  refine ⟨hs'.ready, fun hdone => hs'.contents ?_⟩
  cases fMore with
  | false => rfl
  | true =>
      rw [hmore rfl] at hdone
      exact absurd hdone (by decide)

/-- The retry loop ends only with the image in place. -/
theorem reflashLoop_spec (fuel : Nat) (pba : Nat → UInt8) (fits : start + len < 2 ^ 32) (passes : Nat) :
    Triple (Ready β start len) (reflashLoop (norBus β) fuel pba len passes)
      (fun _ s => Holds pba start len s.dev.array) := by
  induction passes with
  | zero => exact Triple.stuck
  | succ passes ih =>
      refine Triple.bind (reflashPass_spec fuel pba fits) fun fMore => Triple.ite (fun _ => ?_) fun hdone => ?_
      · exact ih.weaken (fun _ hs => hs.1) fun _ _ h => h
      · refine Triple.pure fun s hs => hs.2 ?_
        simp only [Bool.not_eq_true] at hdone
        rw [hdone]
        rfl

/-! ### Detection -/

/-- The flash object after an identification. -/
def identified (pof : ObjectFlash) (manufacturer device : UInt8) (by28 : Bool) : ObjectFlash :=
  { pof with
    bManufacturerId := manufacturer, bDeviceId := device, fDetectedUsing28xxxConventions := by28 }

/-- A 28xxx chip answers the first try. -/
theorem identify28_of_uses28 (uses28 : β.uses28 = true) (s : FlashState NorChip)
    (mode : s.dev.mode = .array) :
    identify28 (norBus β) s =
      some ((), { s with pof := identified s.pof (β.identifier 0) (β.identifier 1) true }) := by
  obtain ⟨pof, m, array, commands, polls⟩ := s
  subst mode
  simp [identify28, bind, writeBytes, writeByte, readByte, Comp.modify, norBus, NorChip.write, uses28,
    NorChip.write28, NorChip.read, identified]
  rfl

/-- A 29xxx chip does not know the commands of the first try and shows its contents. -/
theorem identify28_of_uses29 (uses29 : β.uses28 = false) (s : FlashState NorChip)
    (mode : s.dev.mode = .array) :
    identify28 (norBus β) s =
      some ((), { s with pof := identified s.pof (s.dev.array 0) (s.dev.array 1) true }) := by
  obtain ⟨pof, m, array, commands, polls⟩ := s
  subst mode
  simp [identify28, bind, writeBytes, writeByte, readByte, Comp.modify, norBus, NorChip.write, uses29,
    NorChip.write29, NorChip.read, identified]
  rfl

theorem identify29_of_uses29 (uses29 : β.uses28 = false) (pof : ObjectFlash) (c : NorChip)
    (mode : c.mode = .array) :
    identify29 (norBus β) ⟨pof, c⟩ =
      some ((), ⟨identified pof (β.identifier 0) (β.identifier 1) false, c⟩) := by
  obtain ⟨m, array, commands, polls⟩ := c
  subst mode
  simp [identify29, bind, writeBytes, writeByte, readByte, Comp.modify, norBus, NorChip.write, uses29,
    NorChip.write29, NorChip.read, identified]
  rfl

theorem gotSomeResult_array (ba0 ba1 : UInt8) (pof : ObjectFlash) (c : NorChip) (mode : c.mode = .array) :
    gotSomeResult (norBus β) ba0 ba1 ⟨pof, c⟩ =
      some (ba0 != pof.bManufacturerId || ba1 != c.array 1, ⟨pof, c⟩) := by
  obtain ⟨m, array, commands, polls⟩ := c
  subst mode
  by_cases h : ba0 = pof.bManufacturerId
  · simp [gotSomeResult, bind, Comp.get, h, readByte, norBus, NorChip.read, pure]
  · simp [gotSomeResult, bind, Comp.get, h, pure]

theorem identify_of_uses29 (uses29 : β.uses28 = false) (s : FlashState NorChip)
    (mode : s.dev.mode = .array) :
    identify (norBus β) (s.dev.array 0) (s.dev.array 1) s =
      some ((), { s with pof := identified s.pof (β.identifier 0) (β.identifier 1) false }) := by
  unfold identify
  rw [bind_run (identify28_of_uses29 uses29 s mode), bind_run (gotSomeResult_array _ _ _ _ mode)]
  simp only [identified, bne_self_eq_false, Bool.or_self, Bool.false_eq_true, if_false]
  rw [bind_run (identify29_of_uses29 uses29 _ _ mode), bind_run (gotSomeResult_array _ _ _ _ mode)]
  rfl

theorem identify_of_uses28 (uses28 : β.uses28 = true) (s : FlashState NorChip)
    (mode : s.dev.mode = .array) (differs : s.dev.array 0 ≠ β.identifier 0) :
    identify (norBus β) (s.dev.array 0) (s.dev.array 1) s =
      some ((), { s with pof := identified s.pof (β.identifier 0) (β.identifier 1) true }) := by
  unfold identify
  rw [bind_run (identify28_of_uses28 uses28 s mode), bind_run (gotSomeResult_array _ _ _ _ mode)]
  simp only [identified, bne_iff_ne.mpr differs, Bool.true_or, if_true]
  rfl

/-- A 28xxx chip takes the last write of the second try for an identification command, and stays there. -/
theorem identify29_of_uses28 (uses28 : β.uses28 = true) (pof : ObjectFlash) (c : NorChip)
    (mode : c.mode = .array) :
    identify29 (norBus β) ⟨pof, c⟩ =
      some ((), ⟨identified pof (β.identifier 0) (β.identifier 1) false,
        { c with mode := .identification }⟩) := by
  obtain ⟨m, array, commands, polls⟩ := c
  subst mode
  simp [identify29, bind, writeBytes, writeByte, readByte, Comp.modify, norBus, NorChip.write, uses28,
    NorChip.write28, NorChip.read, identified]
  rfl

theorem gotSomeResult_identification (ba0 ba1 : UInt8) (pof : ObjectFlash) (c : NorChip)
    (mode : c.mode = .identification) :
    gotSomeResult (norBus β) ba0 ba1 ⟨pof, c⟩ =
      some (ba0 != pof.bManufacturerId || ba1 != β.identifier 1, ⟨pof, c⟩) := by
  obtain ⟨m, array, commands, polls⟩ := c
  subst mode
  by_cases h : ba0 = pof.bManufacturerId
  · simp [gotSomeResult, bind, Comp.get, h, readByte, norBus, NorChip.read, pure]
  · simp [gotSomeResult, bind, Comp.get, h, pure]

/-- A 28xxx chip whose first byte is its own manufacturer number is taken for a 29xxx chip. -/
theorem identify_mistakes28 (uses28 : β.uses28 = true) (s : FlashState NorChip)
    (mode : s.dev.mode = .array) (same : s.dev.array 0 = β.identifier 0) :
    identify (norBus β) (s.dev.array 0) (s.dev.array 1) s =
      some ((), ⟨identified s.pof (β.identifier 0) (β.identifier 1) false,
        { s.dev with mode := .identification }⟩) := by
  unfold identify
  rw [bind_run (identify28_of_uses28 uses28 s mode), bind_run (gotSomeResult_array _ _ _ _ mode)]
  simp only [identified, same, bne_self_eq_false, Bool.or_self, Bool.false_eq_true, if_false]
  rw [bind_run (identify29_of_uses28 uses28 _ _ mode),
    bind_run (gotSomeResult_identification _ _ _ _ rfl)]
  rfl

theorem writeByte_spec {M' : NorMode → Prop} (dw : Nat) (b : UInt8)
    (step : ∀ c : NorChip, M c.mode → A c.array →
      M' (NorChip.write β dw b c).mode ∧ A (NorChip.write β dw b c).array) :
    Triple (Standing β start len M A) (writeByte (norBus β) dw b)
      (fun _ => Standing β start len M' A) := by
  refine Triple.modify fun s hs => ?_
  obtain ⟨hmode, hcontents⟩ := step s.dev hs.mode hs.contents
  exact ⟨hmode, hs.convention, hs.startOffset, hs.usedArea, hcontents⟩

/-- While the identification codes are on the bus, reads change nothing. -/
theorem readByte_identification (dw : Nat) :
    Triple (Standing β start len (· = .identification) A) (readByte (norBus β) dw)
      (fun _ => Standing β start len (· = .identification) A) := by
  intro s hs b s' hrun
  have hread : NorChip.read β dw s.dev = (β.identifier dw, s.dev) := by
    simp only [NorChip.read, hs.mode]
  simp only [readByte, norBus, hread, Option.some.injEq, Prod.mk.injEq] at hrun
  obtain ⟨rfl, rfl⟩ := hrun
  exact hs

theorem blockLocks_spec (uses28 : β.uses28 = true) (offsets : List Nat) :
    Triple (Standing β start len (· = .identification) A) (blockLocks (norBus β) offsets)
      (fun _ => Standing β start len (· = .identification) A) := by
  induction offsets with
  | nil => exact Triple.pure fun _ h => h
  | cons n rest ih =>
      refine Triple.bind (Q := fun _ => Standing β start len (· = .identification) A)
        (writeByte_spec _ _ fun c hmode hcontents => ?_) fun _ => ?_
      · simp [NorChip.write, uses28, NorChip.write28, hmode, hcontents]
      refine Triple.bind (readByte_identification _) fun b => ?_
      exact Triple.bind ih fun more => Triple.pure fun _ h => h

/-- The lock report goes through identification mode and comes back. -/
theorem lockReport28_spec (uses28 : β.uses28 = true) (dwLengthInBytes : Nat) :
    Triple (InArray β start len A) (lockReport28 (norBus β) dwLengthInBytes)
      (fun _ => InArray β start len A) := by
  refine Triple.bind (Q := fun _ => Standing β start len (· = .identification) A)
    (writeByte_spec _ _ fun c hmode hcontents => ?_) fun _ => ?_
  · simp [NorChip.write, uses28, NorChip.write28, hmode, hcontents]
  refine Triple.bind (readByte_identification 3) fun masterLock => ?_
  refine Triple.bind (Q := fun _ => Standing β start len (· = .identification) A)
    (Triple.modify fun s hs => ⟨hs.mode, hs.convention, hs.startOffset, hs.usedArea, hs.contents⟩) fun _ => ?_
  refine Triple.bind (blockLocks_spec uses28 _) fun locks => ?_
  refine Triple.bind (Q := fun _ => InArray β start len A)
    (writeBytes_spec _ fun c hmode hcontents => ?_) fun _ => Triple.pure fun _ h => h
  simp [afterWrites, NorChip.write, uses28, NorChip.write28, hmode, hcontents]

theorem gotSomeResult_keeps (ba0 ba1 : UInt8) :
    Triple (InArray β start len A) (gotSomeResult (norBus β) ba0 ba1) (fun _ => InArray β start len A) := by
  intro s hs b s' hrun
  rw [gotSomeResult_array ba0 ba1 s.pof s.dev hs.mode] at hrun
  cases hrun
  exact hs

/-- What is known before detection. -/
structure BeforeDetection (β : NorBehaviour) (start len : Nat) (s : FlashState NorChip) : Prop where
  mode : s.dev.mode = .array
  startOffset : s.pof.dwStartOffset = start
  usedArea : s.pof.dwLengthUsedArea = len
  speaks : β.uses28 = true → s.dev.array 0 ≠ β.identifier 0

theorem identify_spec (s : FlashState NorChip) (hs : BeforeDetection β start len s) :
    Triple (· = s) (identify (norBus β) (s.dev.array 0) (s.dev.array 1)) (fun _ => Ready β start len) := by
  rintro t rfl a s' hrun
  cases h : β.uses28 with
  | false =>
      rw [identify_of_uses29 h t hs.mode] at hrun
      cases hrun
      exact ⟨hs.mode, h.symm, hs.startOffset, hs.usedArea, trivial⟩
  | true =>
      rw [identify_of_uses28 h t hs.mode (hs.speaks h)] at hrun
      cases hrun
      exact ⟨hs.mode, h.symm, hs.startOffset, hs.usedArea, trivial⟩

/-- After detection the driver can work on the chip. -/
theorem bootFlashGetDescriptor_spec (pkft : List KnownFlashType) :
    Triple (BeforeDetection β start len) (bootFlashGetDescriptor (norBus β) pkft)
      (fun _ => Ready β start len) := by
  refine Triple.bind (Q := fun _ => BeforeDetection β start len)
    (Triple.modify fun s hs => ⟨hs.mode, hs.startOffset, hs.usedArea, hs.speaks⟩) fun _ => ?_
  intro s hs
  have hread : ∀ dw, readByte (norBus β) dw s = some (s.dev.array dw, s) := by
    intro dw
    simp only [readByte, norBus, NorChip.read, hs.mode]
  rw [bind_run (hread 0), bind_run (hread 1)]
  refine (Triple.bind (identify_spec s hs) fun _ => Triple.get fun r hr => ?_) s rfl
  split
  · refine Triple.bind (Q := fun _ => Ready β start len) (Triple.ite (fun h28 => ?_) fun _ => ?_) fun report => ?_
    · exact lockReport28_spec (hr.convention ▸ h28) _
    · exact Triple.pure fun _ h => h
    · refine Triple.bind (Q := fun _ => Ready β start len) (Triple.modify fun t ht => ?_) fun _ =>
        Triple.pure fun _ h => h
      exact ⟨ht.mode, ht.convention, ht.startOffset, ht.usedArea, ht.contents⟩
  · refine Triple.bind (gotSomeResult_keeps _ _) fun unlike => ?_
    refine Triple.bind (Q := fun _ => Ready β start len) (Triple.modify fun t ht => ?_) fun _ =>
      Triple.pure fun _ h => h
    exact ⟨ht.mode, ht.convention, ht.startOffset, ht.usedArea, ht.contents⟩

/-- A reflash reaches the reset command only with the image in the flash, if detection leads the driver to the command
    convention of the chip. -/
theorem reflash_installs (β : NorBehaviour) (fuel passes : Nat) (pbNewData : Nat → UInt8)
    (dwStartOffset dwLength : Nat) (s s' : FlashState NorChip) (mode : s.dev.mode = .array)
    (speaks : β.uses28 = true → s.dev.array 0 ≠ β.identifier 0) (fits : dwStartOffset + dwLength < 2 ^ 32)
    (run : bootReflashAndReset (norBus β) fuel passes pbNewData dwStartOffset dwLength s =
      some (.reset, s')) :
    ∀ i < dwLength, s'.dev.array (dwStartOffset + i) = pbNewData i := by
  have whole : Triple (fun t => t = s)
      (bootReflashAndReset (norBus β) fuel passes pbNewData dwStartOffset dwLength)
      (fun outcome t => outcome = .reset → Holds pbNewData dwStartOffset dwLength t.dev.array) := by
    refine Triple.bind (Q := fun _ => BeforeDetection β dwStartOffset dwLength)
      (Triple.modify fun t ht => ?_) fun _ => ?_
    · subst ht
      exact ⟨mode, rfl, rfl, speaks⟩
    refine Triple.bind (bootFlashGetDescriptor_spec _) fun seen => Triple.get fun r _ => ?_
    refine Triple.ite (fun _ => Triple.pure fun _ _ h => absurd h (by simp)) fun _ => ?_
    refine Triple.ite (fun _ => Triple.pure fun _ _ h => absurd h (by simp)) fun _ => ?_
    refine Triple.ite (fun _ => Triple.pure fun _ _ h => absurd h (by simp)) fun _ => ?_
    refine Triple.bind (reflashLoop_spec fuel pbNewData fits passes) fun _ => ?_
    exact Triple.pure fun _ h _ => h
  exact whole s rfl .reset s' run rfl

/-- An AMD chip that needs three reads for a program command and takes the two bytes `0x12`, `0x34`. -/
def amdChip : NorBehaviour where
  uses28 := false
  length := 0x80000
  sector := fun a => a / 0x10000
  identifier := fun a => if a = 0 then 0x01 else 0xa4
  programmed := fun k => if k = 0 then 0x12 else 0x34
  erased := fun _ _ => true
  busyReads := fun _ => 3
  status := fun _ => 0x80

/-- The driver before a reflash, with an erased chip. -/
def beforeReflash : FlashState NorChip where
  pof := ⟨0, 0, "", "", 0, 0, 0, false, false⟩
  dev := ⟨.array, fun _ => 0xff, 0, 0⟩

end Cromwell.Flash
