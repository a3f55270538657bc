/-
Module: Cromwell.Flash.Callbacks
Layer: Proofs
Purpose: The events that one call of the erase or of the program run sends to the callback, with the callback's
  answers, over an arbitrary device and an arbitrary callback. For both functions it is said in which calls the
  `*_START` event gets its `*_END`.
Imports: Cromwell.Flash.Driver
Trusted boundary: human-reviewed statement of the event protocol (Paired, Accepted, programOutcome)
Main exports: recorded, Paired, Accepted, programOutcome, events_paired
-/
import Cromwell.Flash.Driver

namespace Cromwell.Flash

open Comp
open ByteMemory (u32)

/-! ### Recorded calls -/

/-- The calls of the callback, each with its answer. -/
abbrev EventLog : Type := List (EnumEvents × Bool)

variable {D : Type}

/-- Any device and any callback, with a record of the calls. -/
def recorded (read : Nat → D → UInt8 × D) (write : Nat → UInt8 → D → D)
    (callback : EnumEvents → Nat → Nat → D → Bool × D) : FlashBus (D × EventLog) where
  read dw d := ((read dw d.1).1, (read dw d.1).2, d.2)
  write dw b d := (write dw b d.1, d.2)
  callback := some fun ee dwPos dwExtent d =>
    ((callback ee dwPos dwExtent d.1).1, (callback ee dwPos dwExtent d.1).2,
      d.2 ++ [(ee, (callback ee dwPos dwExtent d.1).1)])

/-- The events of one of the two functions. -/
structure EventFamily where
  start : EnumEvents
  update : EnumEvents
  theEnd : EnumEvents
  error : EnumEvents
  distinct : [start, update, theEnd, error].Nodup

def eraseEvents : EventFamily := ⟨.eraseStart, .eraseUpdate, .eraseEnd, .eraseError, by decide⟩

def programEvents : EventFamily := ⟨.programStart, .programUpdate, .programEnd, .programError, by decide⟩

/-- There is a START, exactly one END follows it, and no UPDATE or ERROR follows the END. -/
def Paired (f : EventFamily) (events : List EnumEvents) : Prop :=
  ∃ before between after, events = before ++ f.start :: (between ++ f.theEnd :: after) ∧
    f.theEnd ∉ between ∧ f.theEnd ∉ after ∧ f.update ∉ after ∧ f.error ∉ after

/-- The callback has not asked to stop: every START and every UPDATE is answered with true. -/
def Accepted (f : EventFamily) (log : EventLog) : Prop :=
  ∀ call ∈ log, call.1 = f.start ∨ call.1 = f.update → call.2 = true

/-! ### What the chip does with the data -/

/-- What becomes of a program run. -/
inductive RegionOutcome where
  | taken
  | refused
  | aborted
deriving DecidableEq, Repr

/-- The chip takes a byte, in at most the given number of tries. What is carried along is the address programmed
    last, with the tries counted for it; nothing is returned when the chip reports an error or keeps another value. -/
def chipTakes (bus : FlashBus D) (spin dw : Nat) (data : UInt8) : Nat → Nat × Nat → FlashM D (Option (Nat × Nat))
  | 0, last => do
      let b ← readByte bus dw
      pure (if b = data then some last else none)
  | tries + 1, last => do
      let b ← readByte bus dw
      if b = data then pure (some last)
      else
        let more ← programAttempt bus spin dw data
        if more then chipTakes bus spin dw data tries (dw, tries + 1) else pure none

/-- The bytes of a region, one after the other, as long as the callback agrees. Each byte has four tries; `0xffffffff`
    has one less when nothing was programmed before, since it passes for the address of the last one. -/
def regionOutcome (bus : FlashBus D) (pba : Nat → UInt8) (spin : Nat) :
    Nat → Nat → Nat → Nat × Nat → FlashM D RegionOutcome
  | 0, _, _, _ => pure .taken
  | dwLen + 1, dw, dwSrc, last => do
      let taken ← chipTakes bus spin dw (pba dwSrc) (if last.1 = dw then last.2 - 1 else 4) last
      match taken with
      | none => pure .refused
      | some last => do
          let s ← Comp.get
          let goOn ← notifyEvery1K bus .programUpdate dw dwSrc s.pof.dwLengthUsedArea
          if goOn then regionOutcome bus pba spin dwLen (u32 (dw + 1)) (u32 (dwSrc + 1)) last else pure .aborted

/-- The data of a call of `BootFlashProgram`. -/
def programOutcome (bus : FlashBus D) (fuel : Nat) (pba : Nat → UInt8) : FlashM D RegionOutcome := do
  setErrorInfo ""
  let goOn ← notify bus .programStart 0 0
  if goOn then
    let s ← Comp.get
    regionOutcome bus pba fuel s.pof.dwLengthUsedArea s.pof.dwStartOffset 0 (0xffffffff, 4)
  else pure .aborted

/-! ### What is recorded -/

section Recorded

variable (read : Nat → D → UInt8 × D) (write : Nat → UInt8 → D → D) (callback : EnumEvents → Nat → Nat → D → Bool × D)

/-- The record so far. -/
def Logged (log : EventLog) (s : FlashState (D × EventLog)) : Prop := s.dev.2 = log

/-- The record of an attempt that failed. -/
def Failed (f : EventFamily) (log : EventLog) (s : FlashState (D × EventLog)) : Prop :=
  ∃ a b, s.dev.2 = log ++ [(f.error, a), (f.theEnd, b)]

/-- The record after an attempt: as before, or the attempt has failed. -/
def Attempted (f : EventFamily) (log : EventLog) (more : Bool) (s : FlashState (D × EventLog)) : Prop :=
  if more then Logged log s else Failed f log s

theorem readByte_logged (log : EventLog) (dw : Nat) :
    Triple (Logged log) (readByte (recorded read write callback) dw) fun _ => Logged log := by
  intro s hs b s' hrun
  cases hrun
  exact hs

theorem writeBytes_logged (log : EventLog) (l : List (Nat × UInt8)) :
    Triple (Logged log) (writeBytes (recorded read write callback) l) fun _ => Logged log := by
  induction l with
  | nil =>
      exact Triple.pure fun _ hs => hs
  | cons w rest ih =>
      exact Triple.bind (Triple.modify fun _ hs => hs) fun _ => ih

theorem setErrorInfo_logged (log : EventLog) (text : String) :
    Triple (Logged log) (setErrorInfo text : FlashM (D × EventLog) Unit) fun _ => Logged log :=
  Triple.modify fun _ hs => hs

theorem notify_logged (log : EventLog) (ee : EnumEvents) (dwPos dwExtent : Nat) :
    Triple (Logged log) (notify (recorded read write callback) ee dwPos dwExtent)
      fun answer => Logged (log ++ [(ee, answer)]) := by
  intro s hs b s' hrun
  cases hrun
  exact congrArg (· ++ [(ee, (callback ee dwPos dwExtent s.dev.1).1)]) hs

theorem notifyFailure_logged (f : EventFamily) (log : EventLog) (dw : Nat) (dwPos : ObjectFlash → Nat)
    (dwExtent : UInt8 → Nat) :
    Triple (Logged log) (notifyFailure (recorded read write callback) dw f.error f.theEnd dwPos dwExtent)
      fun _ => Failed f log := by
  refine Triple.ite (fun _ => ?_) fun h => absurd rfl h
  refine Triple.bind (readByte_logged read write callback log dw) fun b => ?_
  refine Triple.get fun s _ => ?_
  refine Triple.bind (notify_logged read write callback log f.error _ _) fun a => ?_
  refine Triple.bind (notify_logged read write callback _ f.theEnd 0 0) fun b => ?_
  refine Triple.pure fun s hs => ⟨a, b, ?_⟩
  rw [hs, List.append_assoc]
  rfl

/-- Waiting only reads. -/
theorem spinErase28_logged (log : EventLog) (dw fuel : Nat) (b : UInt8) (nCountMinSpin : Nat) :
    Triple (Logged log) (spinErase28 (recorded read write callback) dw fuel b nCountMinSpin) fun _ => Logged log := by
  induction fuel generalizing b nCountMinSpin with
  | zero =>
      exact Triple.stuck
  | succ fuel ih =>
      refine Triple.ite (fun _ => ?_) fun _ => Triple.pure fun _ hs => hs
      exact Triple.bind (readByte_logged read write callback log dw) fun b => ih b _

theorem spinProgram28_logged (log : EventLog) (dw fuel : Nat) (b : UInt8) (dwTimeToLive nCountMinSpin : Nat) :
    Triple (Logged log) (spinProgram28 (recorded read write callback) dw fuel b dwTimeToLive nCountMinSpin)
      fun _ => Logged log := by
  induction fuel generalizing b dwTimeToLive nCountMinSpin with
  | zero =>
      exact Triple.stuck
  | succ fuel ih =>
      refine Triple.ite (fun _ => ?_) fun _ => Triple.pure fun _ hs => hs
      exact Triple.bind (readByte_logged read write callback log dw) fun b => ih b _ _

theorem toggleWait_logged (log : EventLog) (dw fuel : Nat) (b : UInt8) (dwCountTries : Nat) :
    Triple (Logged log) (toggleWait (recorded read write callback) dw fuel b dwCountTries) fun _ => Logged log := by
  induction fuel generalizing b dwCountTries with
  | zero =>
      exact Triple.stuck
  | succ fuel ih =>
      refine Triple.bind (readByte_logged read write callback log dw) fun r => ?_
      exact Triple.ite (fun _ => ih _ _) fun _ => Triple.pure fun _ hs => hs

/-- A 29xxx erase attempt records nothing. -/
theorem eraseAttempt29_logged (log : EventLog) (fuel dw nCountEraseRetryIn4KBlock : Nat) :
    Triple (Logged log) (eraseAttempt29 (recorded read write callback) fuel dw nCountEraseRetryIn4KBlock)
      fun _ => Logged log := by
  have hcommand : ∀ command, Triple (Logged log) (eraseCommand29 (recorded read write callback) fuel dw command)
      fun _ => Logged log := fun command =>
    Triple.bind (writeBytes_logged read write callback log command) fun _ =>
      Triple.bind (readByte_logged read write callback log dw) fun b =>
        toggleWait_logged read write callback log dw fuel b 0
  refine Triple.bind (hcommand _) fun dwCountTries => ?_
  refine Triple.bind (Triple.ite (fun _ => hcommand _) fun _ => Triple.pure fun _ hs => hs) fun dwCountTries => ?_
  refine Triple.get fun s _ => ?_
  refine Triple.ite (fun _ => ?_) fun _ => Triple.pure fun _ hs => hs
  exact Triple.bind (hcommand _) fun _ => Triple.pure fun _ hs => hs

theorem eraseAttempt_logged (log : EventLog) (fuel dw nCountEraseRetryIn4KBlock : Nat) :
    Triple (Logged log) (eraseAttempt (recorded read write callback) fuel dw nCountEraseRetryIn4KBlock)
      (Attempted eraseEvents log) := by
  refine Triple.get fun s _ => ?_
  refine Triple.ite (fun _ => ?_) fun _ => ?_
  · refine Triple.bind (writeBytes_logged read write callback log _) fun _ => ?_
    refine Triple.bind (spinErase28_logged read write callback log dw fuel 0 0x100) fun b => ?_
    refine Triple.bind (writeBytes_logged read write callback log _) fun _ => ?_
    refine Triple.ite (fun _ => ?_) fun _ => Triple.pure fun _ hs => hs
    refine Triple.bind (notifyFailure_logged read write callback eraseEvents log dw _ _) fun _ => ?_
    exact Triple.bind (Triple.modify fun _ hs => hs) fun _ => Triple.pure fun _ hs => hs
  · refine Triple.bind (eraseAttempt29_logged read write callback log fuel dw _) fun _ => ?_
    exact Triple.pure fun _ hs => hs

theorem programAttempt_logged (log : EventLog) (fuel dw : Nat) (data : UInt8) :
    Triple (Logged log) (programAttempt (recorded read write callback) fuel dw data)
      (Attempted programEvents log) := by
  refine Triple.get fun s _ => ?_
  refine Triple.ite (fun _ => ?_) fun _ => ?_
  · refine Triple.bind (writeBytes_logged read write callback log _) fun _ => ?_
    refine Triple.bind (spinProgram28_logged read write callback log dw fuel 0 0xfffff 2) fun r => ?_
    refine Triple.bind (writeBytes_logged read write callback log _) fun _ => ?_
    refine Triple.ite (fun _ => ?_) fun _ => Triple.pure fun _ hs => hs
    refine Triple.bind (notifyFailure_logged read write callback programEvents log dw _ _) fun _ => ?_
    exact Triple.bind (Triple.modify fun _ hs => hs) fun _ => Triple.pure fun _ hs => hs
  · refine Triple.bind ?_ fun _ => Triple.pure fun _ hs => hs
    refine Triple.bind (writeBytes_logged read write callback log _) fun _ => ?_
    refine Triple.bind (readByte_logged read write callback log dw) fun b => ?_
    exact Triple.bind (toggleWait_logged read write callback log dw fuel b 0) fun _ => Triple.pure fun _ hs => hs

/-! ### The loops -/

/-- The last calls before a loop is left. -/
def Exits (f : EventFamily) : RegionOutcome → EventLog → Prop
  | .taken, rest => rest = []
  | .refused, rest => ∃ errors answer, (∀ call ∈ errors, call.1 = f.error) ∧ rest = errors ++ [(f.theEnd, answer)]
  | .aborted, rest => rest = [(f.update, false)]

/-- What a loop has recorded when it is left: updates that were accepted, and the last calls. -/
def Recorded (f : EventFamily) (log : EventLog) (o : RegionOutcome) (s : FlashState (D × EventLog)) : Prop :=
  ∃ calls rest, (∀ call ∈ calls, call = (f.update, true)) ∧ Exits f o rest ∧ s.dev.2 = log ++ calls ++ rest

/-- A loop that is left without another update. -/
theorem Exits.recorded {f : EventFamily} {log rest : EventLog} {o : RegionOutcome} {s : FlashState (D × EventLog)}
    (h : Exits f o rest) (hlog : Logged (log ++ rest) s) : Recorded f log o s := by
  refine ⟨[], rest, fun _ h => absurd h List.not_mem_nil, h, ?_⟩
  rw [List.append_nil]
  exact hlog

theorem Failed.recorded {f : EventFamily} {log : EventLog} {s : FlashState (D × EventLog)} (h : Failed f log s) :
    Recorded f log .refused s := by
  obtain ⟨a, b, hlog⟩ := h
  have hexits : Exits f .refused [(f.error, a), (f.theEnd, b)] :=
    ⟨[(f.error, a)], b, fun _ hcall => by rw [List.mem_singleton.mp hcall], rfl⟩
  exact hexits.recorded hlog

/-- An accepted update, and then a loop. -/
theorem Recorded.after {f : EventFamily} {log : EventLog} {o : RegionOutcome} {s : FlashState (D × EventLog)}
    (h : Recorded f (log ++ [(f.update, true)]) o s) : Recorded f log o s := by
  obtain ⟨calls, rest, hcalls, hrest, hlog⟩ := h
  refine ⟨(f.update, true) :: calls, rest, ?_, hrest, ?_⟩
  · intro call hcall
    rcases List.mem_cons.mp hcall with rfl | hcall
    · rfl
    · exact hcalls call hcall
  · rw [hlog, List.append_assoc log]
    rfl

/-- What the loop goes on with after a byte. -/
def Updated (f : EventFamily) (log : EventLog) (goOn : Bool) (s : FlashState (D × EventLog)) : Prop :=
  if goOn then Logged log s ∨ Logged (log ++ [(f.update, true)]) s else Recorded f log .aborted s

theorem notifyEvery1K_logged (f : EventFamily) (log : EventLog) (dw dwPos dwExtent : Nat) :
    Triple (Logged log) (notifyEvery1K (recorded read write callback) f.update dw dwPos dwExtent)
      (Updated f log) := by
  refine Triple.ite (fun _ => ?_) fun _ => Triple.pure fun _ hs => Or.inl hs
  refine (notify_logged read write callback log f.update dwPos dwExtent).post fun answer s hs => ?_
  cases answer with
  | true =>
      exact Or.inr hs
  | false =>
      exact Exits.recorded rfl hs

/-- An erase that is not stopped by the callback records its end. -/
theorem eraseLoop_recorded (spin fuel dw dwLen dwLastEraseAddress nCountEraseRetryIn4KBlock : Nat) (log : EventLog) :
    Triple (Logged log)
      (eraseLoop (recorded read write callback) spin fuel dw dwLen dwLastEraseAddress nCountEraseRetryIn4KBlock)
      fun _ s => Recorded eraseEvents log .refused s ∨ Recorded eraseEvents log .aborted s := by
  induction fuel generalizing dw dwLen dwLastEraseAddress nCountEraseRetryIn4KBlock log with
  | zero =>
      exact Triple.stuck
  | succ fuel ih =>
      -- an attempt either fails, which is recorded, or the same byte is read again
      have hattempt : ∀ last tries tries',
          Triple (Logged log) (do
            let more ← eraseAttempt (recorded read write callback) spin dw tries
            if more then eraseLoop (recorded read write callback) spin fuel dw dwLen last tries'
            else pure false)
            fun _ s => Recorded eraseEvents log .refused s ∨ Recorded eraseEvents log .aborted s := by
        intro last tries tries'
        refine Triple.bind (eraseAttempt_logged read write callback log spin dw tries) fun more => ?_
        cases more with
        | true => exact ih dw dwLen last tries' log
        | false => exact Triple.pure fun s hs => Or.inl (Failed.recorded hs)
      unfold eraseLoop
      refine Triple.ite (fun _ => ?_) fun _ => ?_
      · refine (notify_logged read write callback log .eraseEnd 0 0).post fun answer s hs => Or.inl ?_
        have hexits : Exits eraseEvents .refused [(.eraseEnd, answer)] :=
          ⟨[], answer, fun _ h => absurd h List.not_mem_nil, rfl⟩
        exact hexits.recorded hs
      · refine Triple.bind (readByte_logged read write callback log dw) fun b => ?_
        refine Triple.ite (fun _ => ?_) fun _ => ?_
        · refine Triple.ite (fun _ => ?_) fun _ => hattempt _ _ _
          refine Triple.ite (fun _ => ?_) fun _ => hattempt _ _ _
          refine Triple.bind (notifyFailure_logged read write callback eraseEvents log dw _ _) fun _ => ?_
          refine Triple.bind (Q := fun _ => Failed eraseEvents log) ?_ fun r => ?_
          · intro s hs b s' hrun
            cases hrun
            exact hs
          · refine Triple.bind (Q := fun _ => Failed eraseEvents log) (Triple.modify fun _ hs => hs) fun _ => ?_
            exact Triple.pure fun s hs => Or.inl (Failed.recorded hs)
        · refine Triple.get fun s _ => ?_
          refine Triple.bind (notifyEvery1K_logged read write callback eraseEvents log dw _ _) fun goOn => ?_
          cases goOn with
          | true =>
              intro s hs ok s' hrun
              rcases hs with hs | hs
              · exact ih _ _ _ _ log s hs ok s' hrun
              · exact (ih _ _ _ _ _ s hs ok s' hrun).imp Recorded.after Recorded.after
          | false =>
              refine Triple.bind (Q := fun _ => Recorded eraseEvents log .aborted) (Triple.modify fun _ hs => hs)
                fun _ => ?_
              exact Triple.pure fun s hs => Or.inr hs

/-! One read of a byte that is to be programmed, as the chip meets it. -/

theorem chipTakes_same {bus : FlashBus D} {spin dw tries : Nat} {data b : UInt8} {last : Nat × Nat}
    {s s₁ : FlashState D} (hread : readByte bus dw s = some (b, s₁)) (hb : b = data) :
    chipTakes bus spin dw data tries last s = some (some last, s₁) := by
  cases tries with
  | zero =>
      rw [chipTakes, bind_run hread, if_pos hb]
      rfl
  | succ tries =>
      rw [chipTakes, bind_run hread, if_pos hb]
      rfl

theorem chipTakes_exhausted {bus : FlashBus D} {spin dw : Nat} {data b : UInt8} {last : Nat × Nat}
    {s s₁ : FlashState D} (hread : readByte bus dw s = some (b, s₁)) (hb : b ≠ data) :
    chipTakes bus spin dw data 0 last s = some (none, s₁) := by
  rw [chipTakes, bind_run hread, if_neg hb]
  rfl

theorem chipTakes_attempt {bus : FlashBus D} {spin dw : Nat} {data b : UInt8} {more : Bool} {s s₁ s₂ : FlashState D}
    (tries : Nat) (last : Nat × Nat) (hread : readByte bus dw s = some (b, s₁)) (hb : b ≠ data)
    (hattempt : programAttempt bus spin dw data s₁ = some (more, s₂)) :
    chipTakes bus spin dw data (tries + 1) last s =
      if more then chipTakes bus spin dw data tries (dw, tries + 1) s₂ else some (none, s₂) := by
  rw [chipTakes, bind_run hread, if_neg hb, bind_run hattempt]
  cases more with
  | true => rfl
  | false => rfl

theorem regionOutcome_refused {bus : FlashBus D} {pba : Nat → UInt8} {spin dwLen dw dwSrc : Nat} {last : Nat × Nat}
    {s s₁ : FlashState D} (h : chipTakes bus spin dw (pba dwSrc) (if last.1 = dw then last.2 - 1 else 4) last s =
      some (none, s₁)) :
    regionOutcome bus pba spin (dwLen + 1) dw dwSrc last s = some (.refused, s₁) := by
  rw [regionOutcome, bind_run h]
  rfl

/-- The program loop after an attempt. -/
theorem programAttempt_recorded {pba : Nat → UInt8} {spin fuel dw dwLen dwSrc tries : Nat} {last : Nat × Nat}
    {log : EventLog} {s s₁ s' : FlashState (D × EventLog)} {b : UInt8} {ok : Bool}
    (htries : (if last.1 = dw then last.2 - 1 else 4) = tries + 1)
    (hread : readByte (recorded read write callback) dw s = some (b, s₁)) (hb : b ≠ pba dwSrc) (hs₁ : Logged log s₁)
    (ih : ∀ {s}, Logged log s → programLoop (recorded read write callback) pba spin fuel dw (dwLen + 1) dwSrc dw
      (tries + 1) s = some (ok, s') →
      ∃ o s₁, regionOutcome (recorded read write callback) pba spin (dwLen + 1) dw dwSrc (dw, tries + 1) s =
        some (o, s₁) ∧ Recorded programEvents log o s')
    (run : (do
      let more ← programAttempt (recorded read write callback) spin dw (pba dwSrc)
      if more then programLoop (recorded read write callback) pba spin fuel dw (dwLen + 1) dwSrc dw (tries + 1)
      else pure false) s₁ = some (ok, s')) :
    ∃ o s₁, regionOutcome (recorded read write callback) pba spin (dwLen + 1) dw dwSrc last s = some (o, s₁) ∧
      Recorded programEvents log o s' := by
  obtain ⟨more, s₂, hattempt, run⟩ := bind_eq_some run
  have hs₂ := programAttempt_logged read write callback log spin dw (pba dwSrc) s₁ hs₁ more s₂ hattempt
  have htakes := chipTakes_attempt tries last hread hb hattempt
  cases more with
  | true =>
      obtain ⟨o, s₃, hregion, hrecorded⟩ := ih hs₂ run
      refine ⟨o, s₃, ?_, hrecorded⟩
      rw [← hregion, regionOutcome, regionOutcome]
      apply bind_congr_run
      rw [htries, htakes, if_pos rfl]
      dsimp only
      rw [if_pos rfl, Nat.add_sub_cancel]
  | false =>
      cases run
      refine ⟨.refused, s', regionOutcome_refused ?_, Failed.recorded hs₂⟩
      rw [htries, htakes]
      rfl

/-- The program loop is left as the chip and the callback have it. -/
theorem programLoop_recorded (pba : Nat → UInt8) (spin fuel dw dwLen dwSrc dwLastProgramAddress
    nCountProgramRetries : Nat) (log : EventLog) {s s' : FlashState (D × EventLog)} {ok : Bool}
    (hs : Logged log s)
    (run : programLoop (recorded read write callback) pba spin fuel dw dwLen dwSrc dwLastProgramAddress
      nCountProgramRetries s = some (ok, s')) :
    ∃ o s₁, regionOutcome (recorded read write callback) pba spin dwLen dw dwSrc
      (dwLastProgramAddress, nCountProgramRetries) s = some (o, s₁) ∧ Recorded programEvents log o s' := by
  induction fuel generalizing dw dwLen dwSrc dwLastProgramAddress nCountProgramRetries log s with
  | zero =>
      cases run
  | succ fuel ih =>
      unfold programLoop at run
      cases dwLen with
      | zero =>
          cases run
          exact ⟨.taken, s', rfl, Exits.recorded rfl (by rw [List.append_nil]; exact hs)⟩
      | succ dwLen =>
          rw [if_neg (Nat.succ_ne_zero dwLen)] at run
          obtain ⟨b, s₁, hread, run⟩ := bind_eq_some run
          have hs₁ := readByte_logged read write callback log dw s hs b s₁ hread
          by_cases hb : b = pba dwSrc
          · -- the byte is there: the next one, if the callback agrees
            rw [if_neg (not_not.mpr hb)] at run
            obtain ⟨_, _, hget, run⟩ := bind_eq_some run
            cases hget
            obtain ⟨goOn, s₂, hnotify, run⟩ := bind_eq_some run
            have hs₂ := notifyEvery1K_logged read write callback programEvents log dw dwSrc _ s₁ hs₁ goOn s₂ hnotify
            have htaken : regionOutcome (recorded read write callback) pba spin (dwLen + 1) dw dwSrc
                (dwLastProgramAddress, nCountProgramRetries) s =
                (if goOn then regionOutcome (recorded read write callback) pba spin dwLen (u32 (dw + 1)) (u32 (dwSrc + 1))
                  (dwLastProgramAddress, nCountProgramRetries) else pure .aborted) s₂ := by
              rw [regionOutcome, bind_run (chipTakes_same hread hb)]
              exact bind_run hnotify
            cases goOn with
            | true =>
                rcases hs₂ with hs₂ | hs₂
                · obtain ⟨o, s₃, hregion, hrecorded⟩ := ih _ _ _ _ _ log hs₂ run
                  exact ⟨o, s₃, htaken.trans hregion, hrecorded⟩
                · obtain ⟨o, s₃, hregion, hrecorded⟩ := ih _ _ _ _ _ _ hs₂ run
                  exact ⟨o, s₃, htaken.trans hregion, hrecorded.after⟩
            | false =>
                cases run
                exact ⟨.aborted, s₂, htaken, hs₂⟩
          · rw [if_pos hb] at run
            by_cases hlast : dwLastProgramAddress = dw
            · rw [if_pos hlast] at run
              by_cases hzero : nCountProgramRetries - 1 = 0
              · -- no tries are left
                rw [if_pos hzero] at run
                refine ⟨.refused, s₁, regionOutcome_refused ?_, ?_⟩
                · rw [if_pos hlast, hzero]
                  exact chipTakes_exhausted hread hb
                · obtain ⟨_, s₂, hfailure, run⟩ := bind_eq_some run
                  have hs₂ := notifyFailure_logged read write callback programEvents log dw _ _ s₁ hs₁ _ s₂ hfailure
                  cases run
                  exact Failed.recorded hs₂
              · rw [if_neg hzero] at run
                obtain ⟨tries, htries⟩ := Nat.exists_eq_succ_of_ne_zero hzero
                subst hlast
                rw [htries] at run
                exact programAttempt_recorded read write callback (by rw [if_pos rfl]; exact htries) hread hb hs₁
                  (fun hs run => ih _ _ _ _ _ log hs run) run
            · rw [if_neg hlast] at run
              exact programAttempt_recorded read write callback (by rw [if_neg hlast]) hread hb hs₁
                (fun hs run => ih _ _ _ _ _ log hs run) run

end Recorded

/-! ### The pairing -/

theorem EventFamily.end_ne_start (f : EventFamily) : f.theEnd ≠ f.start := fun h => by
  have hdistinct := f.distinct
  simp [h] at hdistinct

theorem EventFamily.end_ne_update (f : EventFamily) : f.theEnd ≠ f.update := fun h => by
  have hdistinct := f.distinct
  simp [h] at hdistinct

theorem EventFamily.error_ne (f : EventFamily) : f.error ≠ f.start ∧ f.error ≠ f.update ∧ f.error ≠ f.theEnd := by
  have hdistinct := f.distinct
  simp only [List.nodup_cons, List.mem_cons, List.not_mem_nil, or_false, not_or] at hdistinct
  exact ⟨Ne.symm hdistinct.1.2.2, Ne.symm hdistinct.2.1.2, Ne.symm hdistinct.2.2.1⟩

/-- Without an END nothing is paired. -/
theorem not_paired {f : EventFamily} {log : EventLog} (h : ∀ call ∈ log, call.1 ≠ f.theEnd) :
    ¬ Paired f (log.map Prod.fst) := by
  rintro ⟨before, between, after, hevents, -⟩
  have hend : f.theEnd ∈ log.map Prod.fst := by
    rw [hevents]
    simp
  obtain ⟨call, hcall, heq⟩ := List.mem_map.mp hend
  exact h call hcall heq

/-- The events of a loop that the chip has ended, or that has come to its end. -/
theorem Recorded.paired {f : EventFamily} {s : FlashState (D × EventLog)}
    (h : Recorded f [(f.start, true)] .refused s) : Paired f (s.dev.2.map Prod.fst) := by
  obtain ⟨calls, rest, hcalls, ⟨errors, answer, herrors, rfl⟩, hlog⟩ := h
  refine ⟨[], calls.map Prod.fst ++ errors.map Prod.fst, [], ?_, ?_, List.not_mem_nil, List.not_mem_nil,
    List.not_mem_nil⟩
  · rw [hlog]
    simp
  · intro hmem
    rcases List.mem_append.mp hmem with hmem | hmem
    · obtain ⟨call, hcall, heq⟩ := List.mem_map.mp hmem
      rw [hcalls call hcall] at heq
      exact f.end_ne_update heq.symm
    · obtain ⟨call, hcall, heq⟩ := List.mem_map.mp hmem
      rw [herrors call hcall] at heq
      exact f.error_ne.2.2 heq

/-- Such a loop was not stopped by the callback. -/
theorem Recorded.accepted {f : EventFamily} {s : FlashState (D × EventLog)}
    (h : Recorded f [(f.start, true)] .refused s) : Accepted f s.dev.2 := by
  obtain ⟨calls, rest, hcalls, ⟨errors, answer, herrors, rfl⟩, hlog⟩ := h
  intro call hcall hkind
  rw [hlog] at hcall
  simp only [List.mem_append, List.mem_singleton] at hcall
  rcases hcall with (rfl | hcall) | hcall | rfl
  · rfl
  · rw [hcalls call hcall]
  · rw [herrors call hcall] at hkind
    exact absurd hkind (not_or.mpr ⟨f.error_ne.1, f.error_ne.2.1⟩)
  · exact absurd hkind (not_or.mpr ⟨f.end_ne_start, f.end_ne_update⟩)

/-- Every other loop has no END. -/
theorem Recorded.not_paired {f : EventFamily} {o : RegionOutcome} {s : FlashState (D × EventLog)}
    (h : Recorded f [(f.start, true)] o s) (ho : o ≠ .refused) : ¬ Paired f (s.dev.2.map Prod.fst) := by
  obtain ⟨calls, rest, hcalls, hrest, hlog⟩ := h
  have hupdates : ∀ call ∈ rest, call.1 = f.update := by
    cases o with
    | taken =>
        rw [show rest = [] from hrest]
        exact fun _ h => absurd h List.not_mem_nil
    | refused =>
        exact absurd rfl ho
    | aborted =>
        rw [show rest = [(f.update, false)] from hrest]
        intro call hcall
        rw [List.mem_singleton.mp hcall]
  refine Flash.not_paired fun call hcall => ?_
  rw [hlog] at hcall
  simp only [List.mem_append, List.mem_singleton] at hcall
  rcases hcall with (rfl | hcall) | hcall
  · exact f.end_ne_start.symm
  · rw [hcalls call hcall]
    exact f.end_ne_update.symm
  · rw [hupdates call hcall]
    exact f.end_ne_update.symm

/-- A loop that the callback stops while it goes on. -/
theorem Recorded.not_accepted {f : EventFamily} {s : FlashState (D × EventLog)}
    (h : Recorded f [(f.start, true)] .aborted s) : ¬ Accepted f s.dev.2 := by
  obtain ⟨calls, rest, -, hrest, hlog⟩ := h
  rw [show rest = [(f.update, false)] from hrest] at hlog
  intro haccepted
  exact absurd (haccepted (f.update, false) (by rw [hlog]; simp) (Or.inr rfl)) Bool.noConfusion

/-- A loop that the callback stops at its START. -/
theorem stopped_at_start {f : EventFamily} {log : EventLog} (hlog : log = [(f.start, false)]) :
    ¬ Paired f (log.map Prod.fst) ∧ ¬ Accepted f log := by
  subst hlog
  constructor
  · apply not_paired
    intro call hcall
    rw [List.mem_singleton.mp hcall]
    exact f.end_ne_start.symm
  · intro haccepted
    exact absurd (haccepted (f.start, false) (List.mem_singleton.mpr rfl) (Or.inl rfl)) Bool.noConfusion

/-- For every device, every callback and every region, and for every call that returns: an erase is paired exactly
    when the callback has let it go on, and a program run exactly when the chip has refused a byte before the
    callback stopped it. -/
theorem events_paired (read : Nat → D → UInt8 × D) (write : Nat → UInt8 → D → D)
    (callback : EnumEvents → Nat → Nat → D → Bool × D) (fuel : Nat) (pba : Nat → UInt8) (pof : ObjectFlash) (d : D) :
    (∀ ok s, bootFlashEraseMinimalRegion (recorded read write callback) fuel ⟨pof, d, []⟩ = some (ok, s) →
      (Paired eraseEvents (s.dev.2.map Prod.fst) ↔ Accepted eraseEvents s.dev.2)) ∧
    (∀ ok s, bootFlashProgram (recorded read write callback) fuel pba ⟨pof, d, []⟩ = some (ok, s) →
      (Paired programEvents (s.dev.2.map Prod.fst) ↔
        ∃ s', programOutcome (recorded read write callback) fuel pba ⟨pof, d, []⟩ = some (.refused, s'))) := by
  constructor
  · intro ok s run
    obtain ⟨_, s₀, hset, run⟩ := bind_eq_some run
    have hs₀ := setErrorInfo_logged (D := D) [] "" ⟨pof, d, []⟩ rfl _ s₀ hset
    obtain ⟨goOn, s₁, hnotify, run⟩ := bind_eq_some run
    have hs₁ := notify_logged read write callback [] .eraseStart 0 0 s₀ hs₀ goOn s₁ hnotify
    cases goOn with
    | true =>
        rcases eraseLoop_recorded read write callback _ _ _ _ _ _ _ s₁ hs₁ ok s run with h | h
        · exact iff_of_true h.paired h.accepted
        · exact iff_of_false (h.not_paired RegionOutcome.noConfusion) h.not_accepted
    | false =>
        cases run
        obtain ⟨hpaired, haccepted⟩ := @stopped_at_start eraseEvents _ hs₁
        exact iff_of_false hpaired haccepted
  · intro ok s run
    obtain ⟨_, s₀, hset, run⟩ := bind_eq_some run
    have hs₀ := setErrorInfo_logged (D := D) [] "" ⟨pof, d, []⟩ rfl _ s₀ hset
    obtain ⟨goOn, s₁, hnotify, run⟩ := bind_eq_some run
    have hs₁ := notify_logged read write callback [] .programStart 0 0 s₀ hs₀ goOn s₁ hnotify
    have houtcome : programOutcome (recorded read write callback) fuel pba ⟨pof, d, []⟩ =
        (if goOn then regionOutcome (recorded read write callback) pba fuel s₁.pof.dwLengthUsedArea s₁.pof.dwStartOffset
          0 (0xffffffff, 4) else pure .aborted) s₁ := by
      rw [programOutcome, bind_run hset, bind_run hnotify]
      cases goOn <;> rfl
    cases goOn with
    | true =>
        obtain ⟨o, s₂, hregion, h⟩ := programLoop_recorded read write callback pba _ _ _ _ _ _ _ _ hs₁ run
        have ho : programOutcome (recorded read write callback) fuel pba ⟨pof, d, []⟩ = some (o, s₂) :=
          houtcome.trans hregion
        by_cases hrefused : o = .refused
        · subst hrefused
          exact ⟨fun _ => ⟨s₂, ho⟩, fun _ => h.paired⟩
        · refine ⟨fun hpaired => absurd hpaired (h.not_paired hrefused), fun ⟨s₃, hs₃⟩ => ?_⟩
          rw [ho] at hs₃
          cases hs₃
          exact absurd rfl hrefused
    | false =>
        cases run
        apply iff_of_false (@stopped_at_start programEvents _ hs₁).1
        rintro ⟨s₃, hs₃⟩
        rw [houtcome] at hs₃
        cases hs₃

/-- A region of one byte at the start of a chip. -/
def oneByteFlash (uses28 : Bool) : ObjectFlash where
  bManufacturerId := 0x89
  bDeviceId := 0xa6
  szFlashDescription := "Sharp LHF08CH1 (1024K)"
  szAdditionalErrorInfo := ""
  dwLengthInBytes := 0x100000
  dwStartOffset := 0
  dwLengthUsedArea := 1
  fDetectedUsing28xxxConventions := uses28
  fIsBelievedCapableOfWriteAndErase := true

/-- A device that reads as one value whatever is written, and a callback that never stops. -/
def constantBus (value : UInt8) : FlashBus (Unit × EventLog) :=
  recorded (fun _ d => (value, d)) (fun _ _ d => d) fun _ _ _ d => (true, d)

/-- A 28xxx chip that reports an error ends the run, with an END. -/
theorem events_paired_refused_byte :
    ∃ s, bootFlashProgram (constantBus 0x90) 4 (fun _ => 0) ⟨oneByteFlash true, (), []⟩ = some (false, s) ∧
      Paired programEvents (s.dev.2.map Prod.fst) :=
  ⟨_, rfl, ((events_paired (fun _ d => (0x90, d)) (fun _ _ d => d) (fun _ _ _ d => (true, d)) 4 (fun _ => 0)
    (oneByteFlash true) ()).2 _ _ rfl).mpr ⟨_, rfl⟩⟩

/-- A byte that is programmed already: the run succeeds, and there is no END. -/
theorem program_success_unpaired :
    ∃ s, bootFlashProgram (constantBus 0) 4 (fun _ => 0) ⟨oneByteFlash false, (), []⟩ = some (true, s) ∧
      s.dev.2.map Prod.fst = [.programStart, .programUpdate] ∧ ¬ Paired programEvents (s.dev.2.map Prod.fst) := by
  refine ⟨_, rfl, rfl, not_paired fun call hcall => ?_⟩
  rcases List.mem_cons.mp hcall with rfl | hcall
  · exact EnumEvents.noConfusion
  · rw [List.mem_singleton.mp hcall]
    exact EnumEvents.noConfusion

end Cromwell.Flash
