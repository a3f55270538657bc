/-
Module: Cromwell.Flash.Retries
Layer: Proofs
Purpose: The loops of the erase and of the program run as scans with bounded tries, over an arbitrary device. From
  this: when the busy loops end, so do both functions, with at most four erase attempts for each 4K block and four
  program attempts for each byte, and they give up at an address only when its attempts are used up.
Imports: Cromwell.Flash.Frame, Cromwell.Lib.RetryScan
Trusted boundary: human-reviewed statement of the histories (eraseHistory, programHistory, RetriesBounded)
Main exports: eraseScan, programScan, eraseLoop_eq, programLoop_eq, BusyWaitsEnd, RetriesBounded,
  flash_retries_bounded
-/
import Cromwell.Flash.Frame
import Cromwell.Lib.RetryScan

namespace Cromwell.Flash

open Comp
open ByteMemory (u32 sub32)

variable {D : Type}

/-! ### The loops as scans -/

/-- The erase of a region from `start` on; position `i` is byte number `i` of the region. -/
def eraseScan (bus : FlashBus D) (start : Nat) : RetryScan (FlashState D) where
  key i := u32 (start + i) / 0x1000
  tries := maxEraseRetriesIn4KBlockBeforeFailing
  wrong i := do
    let b ← readByte bus (u32 (start + i))
    pure (b ≠ 0xff)
  attempt spin tries i := eraseAttempt bus spin (u32 (start + i)) tries
  giveUp i := eraseGiveUp bus (u32 (start + i))
  advance i := do
    let s ← Comp.get
    notifyEvery1K bus .eraseUpdate (u32 (start + i)) (sub32 (u32 (start + i)) s.pof.dwStartOffset)
      s.pof.dwLengthUsedArea
  abort := setErrorInfo "Erase Aborted"
  finish := notify bus .eraseEnd 0 0

/-- The programming of a region; a byte is a key of its own. -/
def programScan (bus : FlashBus D) (pba : Nat → UInt8) (start : Nat) : RetryScan (FlashState D) where
  key i := u32 (start + i)
  tries := 4
  wrong i := do
    let b ← readByte bus (u32 (start + i))
    pure (b ≠ pba (u32 i))
  attempt spin _ i := programAttempt bus spin (u32 (start + i)) (pba (u32 i))
  giveUp i := programGiveUp bus (u32 (start + i)) (pba (u32 i))
  advance i := do
    let s ← Comp.get
    notifyEvery1K bus .programUpdate (u32 (start + i)) (u32 i) s.pof.dwLengthUsedArea
  abort := setErrorInfo "Program Aborted"
  finish := pure true

theorem u32_add_one (n : Nat) : u32 (u32 n + 1) = u32 (n + 1) := by
  simp [u32, Nat.mod_add_mod]

/-- Giving up is a failure. -/
theorem eraseGiveUp_false (bus : FlashBus D) (dw : Nat) :
    (do let _ ← eraseGiveUp bus dw; pure false) = eraseGiveUp bus dw := by
  simp [eraseGiveUp]

theorem programGiveUp_false (bus : FlashBus D) (dw : Nat) (data : UInt8) :
    (do let _ ← programGiveUp bus dw data; pure false) = programGiveUp bus dw data := by
  simp [programGiveUp]

theorem eraseLoop_eq (bus : FlashBus D) (spin fuel start : Nat) : ∀ i dwLen dwLastEraseAddress tries : Nat,
    eraseLoop bus spin fuel (u32 (start + i)) dwLen dwLastEraseAddress tries =
      ScanHistory.succeeded <$>
        (eraseScan bus start).run spin fuel i dwLen (dwLastEraseAddress / 0x1000) tries := by
  induction fuel with
  | zero =>
      intro i dwLen last tries
      rfl
  | succ fuel ih =>
      intro i dwLen last tries
      have hnext : u32 (u32 (start + i) + 1) = u32 (start + (i + 1)) := u32_add_one (start + i)
      rw [RetryScan.succeeded_run, eraseLoop, hnext]
      simp only [ih]
      generalize (eraseScan bus start).run spin fuel = run
      simp only [eraseScan, bind_assoc, pure_bind, decide_eq_true_eq, eraseGiveUp_false]

theorem programLoop_eq (bus : FlashBus D) (pba : Nat → UInt8) (spin fuel start : Nat) :
    ∀ i dwLen dwLastProgramAddress tries : Nat,
      programLoop bus pba spin fuel (u32 (start + i)) dwLen (u32 i) dwLastProgramAddress tries =
        ScanHistory.succeeded <$> (programScan bus pba start).run spin fuel i dwLen dwLastProgramAddress tries := by
  induction fuel with
  | zero =>
      intro i dwLen last tries
      rfl
  | succ fuel ih =>
      intro i dwLen last tries
      have hnext : u32 (u32 (start + i) + 1) = u32 (start + (i + 1)) := u32_add_one (start + i)
      rw [RetryScan.succeeded_run, programLoop, hnext, u32_add_one]
      simp only [ih]
      generalize (programScan bus pba start).run spin fuel = run
      simp only [programScan, bind_assoc, pure_bind, decide_eq_true_eq, programGiveUp_false]

/-! ### The calls with their histories -/

/-- `BootFlashEraseMinimalRegion` with the history of its loop. -/
def eraseHistory (bus : FlashBus D) (fuel : Nat) : FlashM D ScanHistory := do
  setErrorInfo ""
  let goOn ← notify bus .eraseStart 0 0
  if goOn then
    let s ← Comp.get
    (eraseScan bus s.pof.dwStartOffset).run fuel fuel 0 s.pof.dwLengthUsedArea (0xffffffff / 0x1000)
      maxEraseRetriesIn4KBlockBeforeFailing
  else
    setErrorInfo "Erase Aborted"
    pure ⟨[], .stopped⟩

/-- `BootFlashProgram` with the history of its loop. -/
def programHistory (bus : FlashBus D) (fuel : Nat) (pba : Nat → UInt8) : FlashM D ScanHistory := do
  setErrorInfo ""
  let goOn ← notify bus .programStart 0 0
  if goOn then
    let s ← Comp.get
    (programScan bus pba s.pof.dwStartOffset).run fuel fuel 0 s.pof.dwLengthUsedArea 0xffffffff 4
  else
    setErrorInfo "Program Aborted"
    pure ⟨[], .stopped⟩

/-- The offset is a 32-bit value, so the first address is the offset itself. -/
theorem bootFlashEraseMinimalRegion_eq (bus : FlashBus D) (fuel : Nat) {s : FlashState D}
    (offset : s.pof.dwStartOffset < 2 ^ 32) :
    bootFlashEraseMinimalRegion bus fuel s = (ScanHistory.succeeded <$> eraseHistory bus fuel) s := by
  rw [bootFlashEraseMinimalRegion, eraseHistory, map_bind]
  refine (bind_run rfl).trans (Eq.trans ?_ (bind_run rfl).symm)
  obtain ⟨goOn, d, hnotify⟩ := notify_run bus .eraseStart 0 0 { s with pof := { s.pof with szAdditionalErrorInfo := "" } }
  rw [map_bind, bind_run hnotify, bind_run hnotify]
  cases goOn with
  | true =>
      have hloop := eraseLoop_eq bus fuel fuel s.pof.dwStartOffset 0 s.pof.dwLengthUsedArea 0xffffffff
        maxEraseRetriesIn4KBlockBeforeFailing
      have hstart : u32 (s.pof.dwStartOffset + 0) = s.pof.dwStartOffset := Nat.mod_eq_of_lt offset
      rw [hstart] at hloop
      exact congrFun hloop _
  | false => rfl

theorem bootFlashProgram_eq (bus : FlashBus D) (fuel : Nat) (pba : Nat → UInt8) {s : FlashState D}
    (offset : s.pof.dwStartOffset < 2 ^ 32) :
    bootFlashProgram bus fuel pba s = (ScanHistory.succeeded <$> programHistory bus fuel pba) s := by
  rw [bootFlashProgram, programHistory, map_bind]
  refine (bind_run rfl).trans (Eq.trans ?_ (bind_run rfl).symm)
  obtain ⟨goOn, d, hnotify⟩ :=
    notify_run bus .programStart 0 0 { s with pof := { s.pof with szAdditionalErrorInfo := "" } }
  rw [map_bind, bind_run hnotify, bind_run hnotify]
  cases goOn with
  | true =>
      have hloop := programLoop_eq bus pba fuel fuel s.pof.dwStartOffset 0 s.pof.dwLengthUsedArea 0xffffffff 4
      have hstart : u32 (s.pof.dwStartOffset + 0) = s.pof.dwStartOffset := Nat.mod_eq_of_lt offset
      rw [hstart] at hloop
      exact congrFun hloop _
  | false => rfl

/-! ### The busy loops -/

/-- Every busy loop of the convention in use ends: after the command that it waits for, from every state. -/
structure BusyWaitsEnd (bus : FlashBus D) (convention28 : Bool) : Prop where
  erase28 : convention28 = true → ∀ dw s, ∃ fuel, (do
    writeBytes bus [(0x5555, 0x50), (dw, 0x20), (dw, 0xd0)]
    spinErase28 bus dw fuel 0 0x100) s ≠ none
  program28 : convention28 = true → ∀ dw data s, ∃ fuel, (do
    writeBytes bus [(dw, 0x40), (dw, data)]
    spinProgram28 bus dw fuel 0 0xfffff 2) s ≠ none
  toggle : convention28 = false → ∀ dw command s, ∃ fuel, eraseCommand29 bus fuel dw command s ≠ none

/-- More fuel does not change how a busy loop ends. -/
theorem spinErase28_more (bus : FlashBus D) (dw fuel : Nat) (b : UInt8) (nCountMinSpin : Nat) (s : FlashState D)
    (r : UInt8 × FlashState D) (run : spinErase28 bus dw fuel b nCountMinSpin s = some r) :
    spinErase28 bus dw (fuel + 1) b nCountMinSpin s = some r := by
  induction fuel generalizing b nCountMinSpin s with
  | zero => cases run
  | succ fuel ih =>
      rw [spinErase28] at run ⊢
      split at run
      case isTrue hbusy =>
        rw [if_pos hbusy]
        exact ih _ _ _ run
      case isFalse hbusy =>
        rw [if_neg hbusy]
        exact run

theorem spinProgram28_more (bus : FlashBus D) (dw fuel : Nat) (b : UInt8) (dwTimeToLive nCountMinSpin : Nat)
    (s : FlashState D) (r : (UInt8 × Nat) × FlashState D)
    (run : spinProgram28 bus dw fuel b dwTimeToLive nCountMinSpin s = some r) :
    spinProgram28 bus dw (fuel + 1) b dwTimeToLive nCountMinSpin s = some r := by
  induction fuel generalizing b dwTimeToLive nCountMinSpin s with
  | zero => cases run
  | succ fuel ih =>
      rw [spinProgram28] at run ⊢
      generalize (if b &&& 0x80 = 0 then sub32 dwTimeToLive 1 else dwTimeToLive) = left at run ⊢
      split at run
      case isTrue hbusy =>
        rw [if_pos hbusy]
        exact ih _ _ _ _ run
      case isFalse hbusy =>
        rw [if_neg hbusy]
        exact run

theorem toggleWait_more (bus : FlashBus D) (dw fuel : Nat) (b : UInt8) (dwCountTries : Nat) (s : FlashState D)
    (r : Nat × FlashState D) (run : toggleWait bus dw fuel b dwCountTries s = some r) :
    toggleWait bus dw (fuel + 1) b dwCountTries s = some r := by
  induction fuel generalizing b dwCountTries s with
  | zero => cases run
  | succ fuel ih =>
      rw [toggleWait] at run ⊢
      obtain ⟨read, s₁, hread, run⟩ := bind_eq_some run
      rw [bind_run hread]
      split at run
      case isTrue hbusy =>
        rw [if_pos hbusy]
        exact ih _ _ _ run
      case isFalse hbusy =>
        rw [if_neg hbusy]
        exact run

/-! ### What ends by itself -/

theorem readByte_total (bus : FlashBus D) (dw : Nat) : Total (readByte bus dw) := fun _ h => by cases h

theorem notify_total (bus : FlashBus D) (ee : EnumEvents) (dwPos dwExtent : Nat) :
    Total (notify bus ee dwPos dwExtent) := by
  intro s hnone
  obtain ⟨goOn, d, hrun⟩ := notify_run bus ee dwPos dwExtent s
  rw [hrun] at hnone
  cases hnone

theorem writeBytes_total (bus : FlashBus D) (l : List (Nat × UInt8)) : Total (writeBytes bus l) := by
  induction l with
  | nil => exact Total.pure
  | cons w rest ih => exact Total.modify.bind fun _ => ih

theorem notifyEvery1K_total (bus : FlashBus D) (ee : EnumEvents) (dw dwPos dwExtent : Nat) :
    Total (notifyEvery1K bus ee dw dwPos dwExtent) :=
  Total.ite (notify_total bus ee dwPos dwExtent) Total.pure

theorem notifyFailure_total (bus : FlashBus D) (dw : Nat) (error theEnd : EnumEvents) (dwPos : ObjectFlash → Nat)
    (dwExtent : UInt8 → Nat) : Total (notifyFailure bus dw error theEnd dwPos dwExtent) := by
  refine Total.ite ((readByte_total bus dw).bind fun read => Total.get fun s => ?_) Total.pure
  exact (notify_total bus _ _ _).bind fun _ => (notify_total bus _ _ _).bind fun _ => Total.pure

theorem eraseGiveUp_total (bus : FlashBus D) (dw : Nat) : Total (eraseGiveUp bus dw) :=
  (notifyFailure_total bus dw _ _ _ _).bind fun _ =>
    (readByte_total bus dw).bind fun _ => Total.modify.bind fun _ => Total.pure

theorem programGiveUp_total (bus : FlashBus D) (dw : Nat) (data : UInt8) : Total (programGiveUp bus dw data) :=
  (notifyFailure_total bus dw _ _ _ _).bind fun _ =>
    (readByte_total bus dw).bind fun _ => Total.modify.bind fun _ => Total.pure

/-! ### The attempts -/

variable {bus : FlashBus D} {convention28 : Bool}

/-- A wait after a command. -/
theorem settles_after_writes {α : Type} {l : List (Nat × UInt8)} {wait : Nat → FlashM D α} {s : FlashState D}
    (more : ∀ fuel s r, wait fuel s = some r → wait (fuel + 1) s = some r)
    (ends : ∃ fuel, (do writeBytes bus l; wait fuel) s ≠ none) :
    ∃ s₁, writeBytes bus l s = some ((), s₁) ∧ Settles wait s₁ fun _ _ => True := by
  obtain ⟨⟨_, s₁⟩, hwrites⟩ := Option.ne_none_iff_exists'.mp (writeBytes_total bus l s)
  obtain ⟨fuel, hrun⟩ := ends
  rw [bind_run hwrites] at hrun
  exact ⟨s₁, hwrites, Settles.of_mono (fun fuel r => more fuel s₁ r) hrun⟩

theorem BusyWaitsEnd.eraseCommand29 (waits : BusyWaitsEnd bus convention28) (uses29 : convention28 = false) (dw : Nat)
    (command : List (Nat × UInt8)) (s : FlashState D) :
    Settles (fun fuel => eraseCommand29 bus fuel dw command) s fun _ _ => True := by
  obtain ⟨fuel, hrun⟩ := waits.toggle uses29 dw command s
  refine Settles.of_mono (fun fuel r hr => ?_) hrun
  obtain ⟨n, s'⟩ := r
  obtain ⟨_, s₁, hwrites, hr⟩ := bind_eq_some hr
  obtain ⟨b, s₂, hread, hr⟩ := bind_eq_some hr
  rw [Flash.eraseCommand29, bind_run hwrites, bind_run hread]
  exact toggleWait_more bus dw fuel b 0 s₂ (n, s') hr

theorem BusyWaitsEnd.eraseAttempt29 (waits : BusyWaitsEnd bus convention28) (uses29 : convention28 = false)
    (dw tries : Nat) (s : FlashState D) : Settles (fun fuel => eraseAttempt29 bus fuel dw tries) s fun _ _ => True := by
  refine (waits.eraseCommand29 uses29 dw _ s).bind fun n s₁ _ => ?_
  have hotherwise : Settles (fun fuel => eraseOtherwise29 bus fuel dw n (resetUnlock ++ eraseUnlock ++ [(dw, 0x30)]))
      s₁ fun _ _ => True :=
    Settles.ite (fun _ => waits.eraseCommand29 uses29 dw _ s₁) fun _ => Settles.pure trivial
  refine hotherwise.bind fun n' s₂ _ => Settles.get (Settles.ite (fun _ => ?_) fun _ => Settles.pure trivial)
  exact (waits.eraseCommand29 uses29 dw _ s₂).bind fun _ _ _ => Settles.pure trivial

theorem BusyWaitsEnd.eraseAttempt28 (waits : BusyWaitsEnd bus convention28) (uses28 : convention28 = true) (dw : Nat)
    (s : FlashState D) : Settles (fun fuel => eraseAttempt28 bus fuel dw) s fun _ _ => True := by
  obtain ⟨s₁, hwrites, hwait⟩ :=
    settles_after_writes (fun fuel s r => spinErase28_more bus dw fuel 0 0x100 s r) (waits.erase28 uses28 dw s)
  refine (Settles.of_run (Q := fun _ s' => s' = s₁) hwrites rfl).bind fun _ s₂ hs₂ => ?_
  subst hs₂
  refine hwait.bind fun b s₃ _ => (Settles.of_total (writeBytes_total bus _)).bind fun _ s₄ _ => ?_
  refine Settles.ite (fun _ => ?_) fun _ => Settles.pure trivial
  refine (Settles.of_total (notifyFailure_total bus dw _ _ _ _)).bind fun _ s₅ _ => ?_
  exact (Settles.of_total Total.modify).bind fun _ _ _ => Settles.pure trivial

/-- An attempt ends, in the convention of the flash object. -/
theorem BusyWaitsEnd.eraseAttempt (waits : BusyWaitsEnd bus convention28) (dw tries : Nat) {s : FlashState D}
    (hs : Speaks convention28 s.pof) :
    Settles (fun fuel => eraseAttempt bus fuel dw tries) s fun _ s' => Speaks convention28 s'.pof := by
  have hends : Settles (fun fuel => Flash.eraseAttempt bus fuel dw tries) s fun _ _ => True := by
    refine Settles.get (Settles.ite (fun h => waits.eraseAttempt28 (hs.symm.trans h) dw s) fun h => ?_)
    have uses29 : convention28 = false := hs.symm.trans (Bool.eq_false_iff.mpr h)
    exact (waits.eraseAttempt29 uses29 dw tries s).bind fun _ _ _ => Settles.pure trivial
  exact (hends.triple (fun fuel => eraseAttempt_steady bus (speaks_steady convention28) fuel dw tries) hs).post
    fun _ _ h => h.2

theorem BusyWaitsEnd.programAttempt28 (waits : BusyWaitsEnd bus convention28) (uses28 : convention28 = true)
    (dw : Nat) (data : UInt8) (s : FlashState D) :
    Settles (fun fuel => programAttempt28 bus fuel dw data) s fun _ _ => True := by
  obtain ⟨s₁, hwrites, hwait⟩ :=
    settles_after_writes (fun fuel s r => spinProgram28_more bus dw fuel 0 0xfffff 2 s r)
      (waits.program28 uses28 dw data s)
  refine (Settles.of_run (Q := fun _ s' => s' = s₁) hwrites rfl).bind fun _ s₂ hs₂ => ?_
  subst hs₂
  refine hwait.bind fun r s₃ _ => (Settles.of_total (writeBytes_total bus _)).bind fun _ s₄ _ => ?_
  refine Settles.ite (fun _ => ?_) fun _ => Settles.pure trivial
  refine (Settles.of_total (notifyFailure_total bus dw _ _ _ _)).bind fun _ s₅ _ => ?_
  exact (Settles.of_total Total.modify).bind fun _ _ _ => Settles.pure trivial

/-- A 29xxx program attempt waits as an erase command does. -/
theorem programAttempt29_eq (fuel dw : Nat) (data : UInt8) :
    programAttempt29 bus fuel dw data = (do
      let _ ← eraseCommand29 bus fuel dw [(0x5555, 0xaa), (0x2aaa, 0x55), (0x5555, 0xa0), (dw, data)]
      pure ()) := by
  simp only [programAttempt29, Flash.eraseCommand29, bind_assoc]

theorem BusyWaitsEnd.programAttempt (waits : BusyWaitsEnd bus convention28) (dw : Nat) (data : UInt8)
    {s : FlashState D} (hs : Speaks convention28 s.pof) :
    Settles (fun fuel => programAttempt bus fuel dw data) s fun _ s' => Speaks convention28 s'.pof := by
  have hends : Settles (fun fuel => Flash.programAttempt bus fuel dw data) s fun _ _ => True := by
    refine Settles.get (Settles.ite (fun h => waits.programAttempt28 (hs.symm.trans h) dw data s) fun h => ?_)
    have uses29 : convention28 = false := hs.symm.trans (Bool.eq_false_iff.mpr h)
    simp only [programAttempt29_eq]
    refine Settles.bind (Q := fun _ _ => True) ?_ fun _ _ _ => Settles.pure trivial
    exact (waits.eraseCommand29 uses29 dw _ s).bind fun _ _ _ => Settles.pure trivial
  exact (hends.triple (fun fuel => programAttempt_steady bus (speaks_steady convention28) fuel dw data) hs).post
    fun _ _ h => h.2

/-- The parts of both scans end. -/
theorem BusyWaitsEnd.eraseScan (waits : BusyWaitsEnd bus convention28) (start : Nat) :
    (eraseScan bus start).Responds fun s => Speaks convention28 s.pof where
  wrong := fun _ _ => Settles.of_triple ((readByte_total bus _).bind fun _ => Total.pure)
    (Triple.bind (readByte_steady bus _ _) fun _ => Triple.pure fun _ hs => hs)
  attempt := fun tries _ _ hs => waits.eraseAttempt _ tries hs
  giveUp := fun _ _ => Settles.of_triple (eraseGiveUp_total bus _) (eraseGiveUp_steady bus (speaks_steady _) _)
  advance := fun _ _ => Settles.of_triple (Total.get fun _ => notifyEvery1K_total bus _ _ _ _)
    (Triple.get fun _ _ => notifyEvery1K_steady bus _ _ _ _ _)
  abort := fun _ => Settles.of_triple Total.modify (setErrorInfo_steady (speaks_steady _) _)
  finish := fun _ => Settles.of_triple (notify_total bus _ _ _) (notify_steady bus _ _ _ _)

theorem BusyWaitsEnd.programScan (waits : BusyWaitsEnd bus convention28) (pba : Nat → UInt8) (start : Nat) :
    (programScan bus pba start).Responds fun s => Speaks convention28 s.pof where
  wrong := fun _ _ => Settles.of_triple ((readByte_total bus _).bind fun _ => Total.pure)
    (Triple.bind (readByte_steady bus _ _) fun _ => Triple.pure fun _ hs => hs)
  attempt := fun _ _ _ hs => waits.programAttempt _ _ hs
  giveUp := fun _ _ => Settles.of_triple (programGiveUp_total bus _ _) (programGiveUp_steady bus (speaks_steady _) _ _)
  advance := fun _ _ => Settles.of_triple (Total.get fun _ => notifyEvery1K_total bus _ _ _ _)
    (Triple.get fun _ _ => notifyEvery1K_steady bus _ _ _ _ _)
  abort := fun _ => Settles.of_triple Total.modify (setErrorInfo_steady (speaks_steady _) _)
  finish := fun _ hs => Settles.pure hs

/-! ### The histories -/

/-- The keys of a region that does not wrap come in order. -/
theorem eraseScan_ordered (bus : FlashBus D) {start len : Nat} (fits : start + len ≤ 2 ^ 32) :
    (eraseScan bus start).Ordered len := by
  intro i j hij hj
  have hi : u32 (start + i) = start + i := Nat.mod_eq_of_lt (by omega)
  have hj : u32 (start + j) = start + j := Nat.mod_eq_of_lt (by omega)
  change u32 (start + i) / 0x1000 ≤ u32 (start + j) / 0x1000
  rw [hi, hj]
  exact Nat.div_le_div_right (Nat.add_le_add_left hij start)

theorem programScan_ordered (bus : FlashBus D) (pba : Nat → UInt8) {start len : Nat} (fits : start + len ≤ 2 ^ 32) :
    (programScan bus pba start).Ordered len := by
  intro i j hij hj
  have hi : u32 (start + i) = start + i := Nat.mod_eq_of_lt (by omega)
  have hj : u32 (start + j) = start + j := Nat.mod_eq_of_lt (by omega)
  change u32 (start + i) ≤ u32 (start + j)
  rw [hi, hj]
  exact Nat.add_le_add_left hij start

/-- The attempts of a history at the addresses of a group. -/
def attemptsIn (start : Nat) (group : Nat → Nat) (h : ScanHistory) (g : Nat) : Nat :=
  h.attempts.countP fun i => group (start + i) = g

/-- The 4K block of an address. -/
def block4K (dw : Nat) : Nat := dw / 0x1000

/-- `LPCFlashadress`, where the flash is mapped. -/
def lpcFlashadress : Nat := 0xff000000

/-- A call that returned `ok`, with its history. The history ends with `stopped` when the callback returned false, with
    `failed` when an attempt did, for a chip status error or a time-out. Otherwise the tries of a group were used
    up: four of them, or three where the address counted as tried from the start, in the group of `0xffffffff`. -/
structure RetriesBounded (start len : Nat) (group : Nat → Nat) (ok : Bool) (h : ScanHistory) : Prop where
  result : ok = true ↔ h.outcome = .completed
  inside : ∀ i ∈ h.attempts, i < len
  perGroup : ∀ g, attemptsIn start group h g ≤ 4
  exhausted : ∀ i, h.outcome = .exhausted i → i < len ∧
    (attemptsIn start group h (group (start + i)) = 4 ∨
      group (start + i) = group 0xffffffff ∧ attemptsIn start group h (group (start + i)) = 3)
  /-- A region of the mapped flash does not get to `0xffffffff`. -/
  mapped : lpcFlashadress + start + len ≤ 2 ^ 32 → ∀ i, h.outcome = .exhausted i →
    attemptsIn start group h (group (start + i)) = 4

theorem attemptsFor_eq {c : RetryScan (FlashState D)} {start len : Nat} {group : Nat → Nat} {h : ScanHistory}
    (hkey : ∀ i < len, c.key i = group (start + i)) (inside : ∀ i ∈ h.attempts, i < len) (g : Nat) :
    c.attemptsFor h g = attemptsIn start group h g := by
  apply List.countP_congr
  intro i hi
  rw [hkey i (inside i hi)]

/-- The bounds of a scan from its first position on. -/
theorem RetriesBounded.of_bounded {c : RetryScan (FlashState D)} {start len lastKey : Nat} {group : Nat → Nat}
    {h : ScanHistory} (hkey : ∀ i < len, c.key i = group (start + i)) (hlast : lastKey = group 0xffffffff)
    (htries : c.tries = 4) (hgroup : ∀ a < 0x1000000, group a ≠ group 0xffffffff)
    (hb : RetryScan.Bounded c len 0 lastKey 4 h) :
    RetriesBounded start len group h.succeeded h := by
  have inside : ∀ i ∈ h.attempts, i < len := fun i hi => (hb.ahead i hi).2
  have hcount : ∀ g, c.attemptsFor h g = attemptsIn start group h g := attemptsFor_eq hkey inside
  have exhausted : ∀ i, h.outcome = .exhausted i → i < len ∧
      (attemptsIn start group h (group (start + i)) = 4 ∨
        group (start + i) = group 0xffffffff ∧ attemptsIn start group h (group (start + i)) = 3) := by
    intro i hi
    obtain ⟨⟨-, hi⟩, hexhausted⟩ := hb.exhausted i hi
    rw [hcount, hkey i hi, htries, hlast] at hexhausted
    exact ⟨hi, hexhausted⟩
  refine ⟨decide_eq_true_iff, inside, fun g => ?_, exhausted, fun hmapped i hi => ?_⟩
  · have hg := hb.perKey g
    rw [hcount, htries] at hg
    split at hg <;> omega
  · obtain ⟨hi, hfour | ⟨htop, -⟩⟩ := exhausted i hi
    · exact hfour
    · rw [lpcFlashadress] at hmapped
      exact absurd htop (hgroup (start + i) (by omega))

theorem RetriesBounded.stopped (start len : Nat) (group : Nat → Nat) :
    RetriesBounded start len group false ⟨[], .stopped⟩ where
  result := by simp
  inside := fun _ h => absurd h List.not_mem_nil
  perGroup := fun _ => Nat.zero_le _
  exhausted := fun _ h => by cases h
  mapped := fun _ _ h => by cases h

/-- A history that belongs to the call. -/
theorem run_of_history {m : FlashM D Bool} {hm : FlashM D ScanHistory} {s s' : FlashState D} {ok : Bool}
    (heq : m s = (ScanHistory.succeeded <$> hm) s) (run : m s = some (ok, s')) :
    ∃ h, hm s = some (h, s') ∧ ok = h.succeeded := by
  rw [heq, ← bind_pure_comp] at run
  obtain ⟨h, s₁, hrun, hok⟩ := bind_eq_some run
  cases hok
  exact ⟨h, hrun, rfl⟩

theorem eraseHistory_bounded (bus : FlashBus D) (fuel : Nat) {start len : Nat} (fits : start + len ≤ 2 ^ 32) :
    Triple (fun s => Region start len s.pof) (eraseHistory bus fuel)
      fun h _ => RetriesBounded start len block4K h.succeeded h := by
  refine Triple.bind (setErrorInfo_steady (region_steady start len) _) fun _ => ?_
  refine Triple.bind (notify_steady bus _ _ _ _) fun goOn => Triple.ite (fun _ => ?_) fun _ => ?_
  · refine Triple.get fun s hs => ?_
    rw [hs.1, hs.2]
    have hbounds := RetryScan.run_bounds (eraseScan_ordered bus fits) (Nat.succ_pos 3) fuel fuel 0 len
      (0xffffffff / 0x1000) maxEraseRetriesIn4KBlockBeforeFailing (Nat.zero_add len) (Nat.succ_pos 3) (Nat.le_refl _)
    refine hbounds.weaken (fun _ _ => trivial) fun h _ hb => RetriesBounded.of_bounded ?_ rfl rfl ?_ hb
    · intro i hi
      have hu32 : u32 (start + i) = start + i := Nat.mod_eq_of_lt (by omega)
      change u32 (start + i) / 0x1000 = (start + i) / 0x1000
      rw [hu32]
    · intro a ha
      rw [block4K, block4K]
      omega
  · exact Triple.bind (Q := fun _ _ => True) (Triple.modify fun _ _ => trivial) fun _ =>
      Triple.pure fun _ _ => RetriesBounded.stopped start len block4K

theorem programHistory_bounded (bus : FlashBus D) (fuel : Nat) (pba : Nat → UInt8) {start len : Nat}
    (fits : start + len ≤ 2 ^ 32) :
    Triple (fun s => Region start len s.pof) (programHistory bus fuel pba) fun h _ =>
      RetriesBounded start len id h.succeeded h := by
  refine Triple.bind (setErrorInfo_steady (region_steady start len) _) fun _ => ?_
  refine Triple.bind (notify_steady bus _ _ _ _) fun goOn => Triple.ite (fun _ => ?_) fun _ => ?_
  · refine Triple.get fun s hs => ?_
    rw [hs.1, hs.2]
    have hbounds := RetryScan.run_bounds (programScan_ordered bus pba fits) (Nat.succ_pos 3) fuel fuel 0 len
      0xffffffff 4 (Nat.zero_add len) (Nat.succ_pos 3) (Nat.le_refl _)
    refine hbounds.weaken (fun _ _ => trivial) fun h _ hb => RetriesBounded.of_bounded ?_ rfl rfl ?_ hb
    · intro i hi
      exact Nat.mod_eq_of_lt (by omega)
    · intro a ha
      exact Nat.ne_of_lt (lt_trans ha (by decide))
  · exact Triple.bind (Q := fun _ _ => True) (Triple.modify fun _ _ => trivial) fun _ =>
      Triple.pure fun _ _ => RetriesBounded.stopped start len id

/-- The erase ends, with the result of its scan. -/
theorem eraseHistory_settles {bus : FlashBus D} {s : FlashState D}
    (waits : BusyWaitsEnd bus s.pof.fDetectedUsing28xxxConventions) :
    Settles (fun fuel => eraseHistory bus fuel) s fun _ _ => True := by
  have hspeaks := speaks_steady s.pof.fDetectedUsing28xxxConventions
  refine (Settles.of_triple Total.modify (setErrorInfo_steady hspeaks _) rfl).bind fun _ s₁ hs₁ => ?_
  refine (Settles.of_triple (notify_total bus _ _ _) (notify_steady bus _ _ _ _) hs₁).bind fun goOn s₂ hs₂ => ?_
  refine Settles.ite (fun _ => Settles.get ?_) fun _ => ?_
  · exact (RetryScan.run_settles (waits.eraseScan _) _ (fun fuel => fuel) _ _ _ _ _ (fun _ => Nat.le_refl _) hs₂
      (Nat.le_refl _) (Nat.le_refl _)).post fun _ _ _ => trivial
  · exact (Settles.of_total Total.modify).bind fun _ _ _ => Settles.pure trivial

theorem programHistory_settles {bus : FlashBus D} {s : FlashState D}
    (waits : BusyWaitsEnd bus s.pof.fDetectedUsing28xxxConventions) (pba : Nat → UInt8) :
    Settles (fun fuel => programHistory bus fuel pba) s fun _ _ => True := by
  have hspeaks := speaks_steady s.pof.fDetectedUsing28xxxConventions
  refine (Settles.of_triple Total.modify (setErrorInfo_steady hspeaks _) rfl).bind fun _ s₁ hs₁ => ?_
  refine (Settles.of_triple (notify_total bus _ _ _) (notify_steady bus _ _ _ _) hs₁).bind fun goOn s₂ hs₂ => ?_
  refine Settles.ite (fun _ => Settles.get ?_) fun _ => ?_
  · exact (RetryScan.run_settles (waits.programScan pba _) _ (fun fuel => fuel) _ _ _ _ _ (fun _ => Nat.le_refl _) hs₂
      (Nat.le_refl _) (Nat.le_refl _)).post fun _ _ _ => trivial
  · exact (Settles.of_total Total.modify).bind fun _ _ _ => Settles.pure trivial

/-- The functions end, too. -/
theorem bootFlashEraseMinimalRegion_settles {bus : FlashBus D} {s : FlashState D}
    (waits : BusyWaitsEnd bus s.pof.fDetectedUsing28xxxConventions) (offset : s.pof.dwStartOffset < 2 ^ 32) :
    Settles (fun fuel => bootFlashEraseMinimalRegion bus fuel) s fun _ _ => True := by
  have hmap := (eraseHistory_settles waits).bind fun h s' _ =>
    (Settles.pure trivial : Settles (fun _ => pure h.succeeded) s' fun _ _ => True)
  refine hmap.congr fun fuel => ?_
  rw [bootFlashEraseMinimalRegion_eq bus fuel offset, bind_pure_comp]

theorem bootFlashProgram_settles {bus : FlashBus D} {s : FlashState D}
    (waits : BusyWaitsEnd bus s.pof.fDetectedUsing28xxxConventions) (pba : Nat → UInt8)
    (offset : s.pof.dwStartOffset < 2 ^ 32) :
    Settles (fun fuel => bootFlashProgram bus fuel pba) s fun _ _ => True := by
  have hmap := (programHistory_settles waits pba).bind fun h s' _ =>
    (Settles.pure trivial : Settles (fun _ => pure h.succeeded) s' fun _ _ => True)
  refine hmap.congr fun fuel => ?_
  rw [bootFlashProgram_eq bus fuel pba offset, bind_pure_comp]

/-- For every device and callback and every region that does not wrap: both functions end, and the history of each
    call is bounded. -/
theorem flash_retries_bounded (bus : FlashBus D) (pba : Nat → UInt8) (s : FlashState D)
    (waits : BusyWaitsEnd bus s.pof.fDetectedUsing28xxxConventions) (offset : s.pof.dwStartOffset < 2 ^ 32)
    (fits : s.pof.dwStartOffset + s.pof.dwLengthUsedArea ≤ 2 ^ 32) :
    (∃ enough, ∀ fuel, enough ≤ fuel →
      bootFlashEraseMinimalRegion bus fuel s ≠ none ∧ bootFlashProgram bus fuel pba s ≠ none) ∧
    (∀ fuel ok s', bootFlashEraseMinimalRegion bus fuel s = some (ok, s') →
      ∃ h, eraseHistory bus fuel s = some (h, s') ∧
        RetriesBounded s.pof.dwStartOffset s.pof.dwLengthUsedArea block4K ok h) ∧
    ∀ fuel ok s', bootFlashProgram bus fuel pba s = some (ok, s') →
      ∃ h, programHistory bus fuel pba s = some (h, s') ∧
        RetriesBounded s.pof.dwStartOffset s.pof.dwLengthUsedArea id ok h := by
  refine ⟨?_, fun fuel ok s' run => ?_, fun fuel ok s' run => ?_⟩
  · obtain ⟨enough, ok, s', herase, -⟩ := bootFlashEraseMinimalRegion_settles waits offset
    obtain ⟨enough', ok', s'', hprogram, -⟩ := bootFlashProgram_settles waits pba offset
    refine ⟨max enough enough', fun fuel hfuel => ⟨fun hnone => ?_, fun hnone => ?_⟩⟩
    · exact Option.some_ne_none _ ((herase fuel (le_trans (le_max_left _ _) hfuel)).symm.trans hnone)
    · exact Option.some_ne_none _ ((hprogram fuel (le_trans (le_max_right _ _) hfuel)).symm.trans hnone)
  · obtain ⟨h, hrun, rfl⟩ := run_of_history (bootFlashEraseMinimalRegion_eq bus fuel offset) run
    exact ⟨h, hrun, eraseHistory_bounded bus fuel fits s ⟨rfl, rfl⟩ h s' hrun⟩
  · obtain ⟨h, hrun, rfl⟩ := run_of_history (bootFlashProgram_eq bus fuel pba offset) run
    exact ⟨h, hrun, programHistory_bounded bus fuel pba fits s ⟨rfl, rfl⟩ h s' hrun⟩

/-- A device that reads as `0x80` whatever is written to it, without a callback. -/
def stuckBus : FlashBus Unit where
  read _ d := (0x80, d)
  write _ _ d := d
  callback := none

theorem stuckBus_waits : BusyWaitsEnd stuckBus false where
  erase28 := fun h => by cases h
  program28 := fun h => by cases h
  toggle := by
    intro _ dw command s
    -- the two reads agree
    obtain ⟨⟨_, s₁⟩, hwrites⟩ := Option.ne_none_iff_exists'.mp (writeBytes_total stuckBus command s)
    have hread : readByte stuckBus dw s₁ = some (0x80, s₁) := rfl
    refine ⟨1, ?_⟩
    rw [eraseCommand29, bind_run hwrites, bind_run hread, toggleWait, bind_run hread, if_neg (not_not.mpr rfl)]
    exact Option.some_ne_none _

/-- The first byte of such a device is to be erased. -/
def stuckByte : FlashState Unit where
  pof := ⟨0xda, 0x8c, "Winbond W49F020", "", 0x40000, 0, 1, false, true⟩
  dev := ()

theorem stuck_byte_retries_bounded : ∃ h s', eraseHistory stuckBus 8 stuckByte = some (h, s') ∧
    RetriesBounded 0 1 block4K false h := by
  obtain ⟨-, herase, -⟩ := flash_retries_bounded stuckBus (fun _ => 0) stuckByte stuckBus_waits (by decide) (by decide)
  have hrun : (bootFlashEraseMinimalRegion stuckBus 8 stuckByte).map Prod.fst = some false := by decide +kernel
  obtain ⟨⟨ok, s'⟩, run, rfl⟩ := Option.map_eq_some_iff.mp hrun
  obtain ⟨h, hhistory, hbounded⟩ := herase 8 _ s' run
  exact ⟨h, s', hhistory, hbounded⟩

end Cromwell.Flash
