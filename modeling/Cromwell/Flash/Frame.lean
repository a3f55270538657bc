/-
Module: Cromwell.Flash.Frame
Layer: Proofs
Purpose: What the erase and the program run leave alone. Of the flash object they change the error text only, so a
  property of the object that does not depend on that text holds throughout, over an arbitrary device.
Imports: Cromwell.Flash.Driver
Trusted boundary: none
Main exports: Steady, eraseAttempt_steady, programAttempt_steady, Region, region_steady
-/
import Cromwell.Flash.Driver

namespace Cromwell.Flash

open Comp

variable {D : Type}

/-- A property of the flash object that does not depend on the error text. -/
def Steady (P : ObjectFlash → Prop) : Prop := ∀ pof text, P pof → P { pof with szAdditionalErrorInfo := text }

/-- The region of the flash object. -/
def Region (start len : Nat) (pof : ObjectFlash) : Prop := pof.dwStartOffset = start ∧ pof.dwLengthUsedArea = len

theorem region_steady (start len : Nat) : Steady (Region start len) := fun _ _ h => h

/-- The command convention in use. -/
def Speaks (convention28 : Bool) (pof : ObjectFlash) : Prop := pof.fDetectedUsing28xxxConventions = convention28

theorem speaks_steady (convention28 : Bool) : Steady (Speaks convention28) := fun _ _ h => h

section Steady

variable (bus : FlashBus D) {P : ObjectFlash → Prop} (steady : Steady P)

theorem readByte_steady (P : ObjectFlash → Prop) (dw : Nat) :
    Triple (fun s => P s.pof) (readByte bus dw) fun _ s => P s.pof := by
  intro s hs b s' run
  cases run
  exact hs

theorem writeBytes_steady (P : ObjectFlash → Prop) (l : List (Nat × UInt8)) :
    Triple (fun s => P s.pof) (writeBytes bus l) fun _ s => P s.pof := by
  induction l with
  | nil => exact Triple.pure fun _ hs => hs
  | cons w rest ih => exact Triple.bind (Triple.modify fun _ hs => hs) fun _ => ih

/-- The callback acts on the device only. -/
theorem notify_run (ee : EnumEvents) (dwPos dwExtent : Nat) (s : FlashState D) :
    ∃ goOn d, notify bus ee dwPos dwExtent s = some (goOn, { s with dev := d }) := by
  unfold notify
  cases bus.callback with
  | none => exact ⟨true, s.dev, rfl⟩
  | some callback => exact ⟨_, _, rfl⟩

theorem notify_steady (P : ObjectFlash → Prop) (ee : EnumEvents) (dwPos dwExtent : Nat) :
    Triple (fun s => P s.pof) (notify bus ee dwPos dwExtent) fun _ s => P s.pof := by
  intro s hs goOn s' run
  obtain ⟨_, d, hrun⟩ := notify_run bus ee dwPos dwExtent s
  rw [hrun] at run
  cases run
  exact hs

theorem notifyEvery1K_steady (P : ObjectFlash → Prop) (ee : EnumEvents) (dw dwPos dwExtent : Nat) :
    Triple (fun s => P s.pof) (notifyEvery1K bus ee dw dwPos dwExtent) fun _ s => P s.pof :=
  Triple.ite (fun _ => notify_steady bus P ee dwPos dwExtent) fun _ => Triple.pure fun _ hs => hs

theorem notifyFailure_steady (P : ObjectFlash → Prop) (dw : Nat) (error theEnd : EnumEvents)
    (dwPos : ObjectFlash → Nat) (dwExtent : UInt8 → Nat) :
    Triple (fun s => P s.pof) (notifyFailure bus dw error theEnd dwPos dwExtent) fun _ s => P s.pof := by
  refine Triple.ite (fun _ => ?_) fun _ => Triple.pure fun _ hs => hs
  refine Triple.bind (readByte_steady bus P dw) fun read => Triple.get fun s _ => ?_
  refine Triple.bind (notify_steady bus P _ _ _) fun _ => ?_
  exact Triple.bind (notify_steady bus P _ _ _) fun _ => Triple.pure fun _ hs => hs

theorem spinErase28_steady (P : ObjectFlash → Prop) (dw fuel : Nat) (b : UInt8) (nCountMinSpin : Nat) :
    Triple (fun s => P s.pof) (spinErase28 bus dw fuel b nCountMinSpin) fun _ s => P s.pof := by
  induction fuel generalizing b nCountMinSpin with
  | zero => exact Triple.stuck
  | succ fuel ih =>
      refine Triple.ite (fun _ => ?_) fun _ => Triple.pure fun _ hs => hs
      exact Triple.bind (readByte_steady bus P dw) fun b => ih b _

theorem spinProgram28_steady (P : ObjectFlash → Prop) (dw fuel : Nat) (b : UInt8) (dwTimeToLive nCountMinSpin : Nat) :
    Triple (fun s => P s.pof) (spinProgram28 bus dw fuel b dwTimeToLive nCountMinSpin) fun _ s => P s.pof := by
  induction fuel generalizing b dwTimeToLive nCountMinSpin with
  | zero => exact Triple.stuck
  | succ fuel ih =>
      refine Triple.ite (fun _ => ?_) fun _ => Triple.pure fun _ hs => hs
      exact Triple.bind (readByte_steady bus P dw) fun b => ih b _ _

theorem toggleWait_steady (P : ObjectFlash → Prop) (dw fuel : Nat) (b : UInt8) (dwCountTries : Nat) :
    Triple (fun s => P s.pof) (toggleWait bus dw fuel b dwCountTries) fun _ s => P s.pof := by
  induction fuel generalizing b dwCountTries with
  | zero => exact Triple.stuck
  | succ fuel ih =>
      refine Triple.bind (readByte_steady bus P dw) fun r => ?_
      exact Triple.ite (fun _ => ih _ _) fun _ => Triple.pure fun _ hs => hs

theorem eraseCommand29_steady (P : ObjectFlash → Prop) (fuel dw : Nat) (command : List (Nat × UInt8)) :
    Triple (fun s => P s.pof) (eraseCommand29 bus fuel dw command) fun _ s => P s.pof :=
  Triple.bind (writeBytes_steady bus P command) fun _ =>
    Triple.bind (readByte_steady bus P dw) fun b => toggleWait_steady bus P dw fuel b 0

theorem eraseAttempt29_steady (P : ObjectFlash → Prop) (fuel dw tries : Nat) :
    Triple (fun s => P s.pof) (eraseAttempt29 bus fuel dw tries) fun _ s => P s.pof := by
  refine Triple.bind (eraseCommand29_steady bus P fuel dw _) fun n => ?_
  refine Triple.bind (Q := fun _ s => P s.pof) (Triple.ite (fun _ => ?_) fun _ => ?_) fun n' => ?_
  · exact eraseCommand29_steady bus P fuel dw _
  · exact Triple.pure fun _ hs => hs
  · refine Triple.get fun r _ => Triple.ite (fun _ => ?_) fun _ => Triple.pure fun _ hs => hs
    exact Triple.bind (eraseCommand29_steady bus P fuel dw _) fun _ => Triple.pure fun _ hs => hs

include steady

theorem setErrorInfo_steady (text : String) :
    Triple (fun s : FlashState D => P s.pof) (setErrorInfo text) fun _ s => P s.pof :=
  Triple.modify fun s hs => steady s.pof text hs

theorem eraseAttempt28_steady (fuel dw : Nat) :
    Triple (fun s => P s.pof) (eraseAttempt28 bus fuel dw) fun _ s => P s.pof := by
  refine Triple.bind (writeBytes_steady bus P _) fun _ => ?_
  refine Triple.bind (spinErase28_steady bus P dw fuel _ _) fun b => ?_
  refine Triple.bind (writeBytes_steady bus P _) fun _ => ?_
  refine Triple.ite (fun _ => ?_) fun _ => Triple.pure fun _ hs => hs
  refine Triple.bind (notifyFailure_steady bus P dw _ _ _ _) fun _ => ?_
  exact Triple.bind (setErrorInfo_steady steady _) fun _ => Triple.pure fun _ hs => hs

theorem eraseAttempt_steady (fuel dw tries : Nat) :
    Triple (fun s => P s.pof) (eraseAttempt bus fuel dw tries) fun _ s => P s.pof := by
  refine Triple.get fun r _ => Triple.ite (fun _ => eraseAttempt28_steady bus steady fuel dw) fun _ => ?_
  exact Triple.bind (eraseAttempt29_steady bus P fuel dw tries) fun _ => Triple.pure fun _ hs => hs

theorem eraseGiveUp_steady (dw : Nat) : Triple (fun s => P s.pof) (eraseGiveUp bus dw) fun _ s => P s.pof := by
  refine Triple.bind (notifyFailure_steady bus P dw _ _ _ _) fun _ => ?_
  refine Triple.bind (readByte_steady bus P dw) fun read => ?_
  exact Triple.bind (setErrorInfo_steady steady _) fun _ => Triple.pure fun _ hs => hs

theorem programAttempt_steady (fuel dw : Nat) (data : UInt8) :
    Triple (fun s => P s.pof) (programAttempt bus fuel dw data) fun _ s => P s.pof := by
  refine Triple.get fun r _ => Triple.ite (fun _ => ?_) fun _ => ?_
  · refine Triple.bind (writeBytes_steady bus P _) fun _ => ?_
    refine Triple.bind (spinProgram28_steady bus P dw fuel _ _ _) fun b => ?_
    refine Triple.bind (writeBytes_steady bus P _) fun _ => ?_
    refine Triple.ite (fun _ => ?_) fun _ => Triple.pure fun _ hs => hs
    refine Triple.bind (notifyFailure_steady bus P dw _ _ _ _) fun _ => ?_
    exact Triple.bind (setErrorInfo_steady steady _) fun _ => Triple.pure fun _ hs => hs
  · refine Triple.bind (Q := fun _ s => P s.pof) ?_ fun _ => Triple.pure fun _ hs => hs
    refine Triple.bind (writeBytes_steady bus P _) fun _ => ?_
    refine Triple.bind (readByte_steady bus P dw) fun b => ?_
    exact Triple.bind (toggleWait_steady bus P dw fuel b 0) fun _ => Triple.pure fun _ hs => hs

theorem programGiveUp_steady (dw : Nat) (data : UInt8) :
    Triple (fun s => P s.pof) (programGiveUp bus dw data) fun _ s => P s.pof := by
  refine Triple.bind (notifyFailure_steady bus P dw _ _ _ _) fun _ => ?_
  refine Triple.bind (readByte_steady bus P dw) fun read => ?_
  exact Triple.bind (setErrorInfo_steady steady _) fun _ => Triple.pure fun _ hs => hs

end Steady

end Cromwell.Flash
