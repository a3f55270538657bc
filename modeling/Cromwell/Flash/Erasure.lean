/-
Module: Cromwell.Flash.Erasure
Layer: Proofs
Purpose: What an erase leaves behind on a NOR chip. The chip is watched: beside it stands a log of the commands that
  it executes, and the callback answers as it likes. An erase that reports success has erased its region; whatever
  it reports, it has changed only sectors that meet the region, except by a chip erase, and it gives that command
  only for the whole chip and after block erase was tried in the 4K block.
Imports: Cromwell.Flash.ReflashProof, Cromwell.Flash.Retries
Trusted boundary: human-reviewed watched device (ChipCommand, executed, watchedBus) and ChipEraseGuarded
Main exports: WatchedChip, watchedBus, ChipEraseGuarded, Scanned, erase_erases_region
-/
import Cromwell.Flash.ReflashProof
import Cromwell.Flash.Retries

namespace Cromwell.Flash

open Comp
open ByteMemory (u32)

/-! ### The watched chip -/

/-- The commands that change the contents of a chip. -/
inductive ChipCommand where
  | program (a : Nat)
  | sectorErase (a : Nat)
  | chipErase
deriving DecidableEq, Repr

/-- The command that a bus write completes. -/
def executed (β : NorBehaviour) (a : Nat) (v : UInt8) (c : NorChip) : Option ChipCommand :=
  if β.uses28 then
    match c.mode with
    | .eraseSetup => if v = 0xd0 then some (.sectorErase a) else none
    | .programSetup => some (.program a)
    | _ => none
  else
    match c.mode with
    | .programAddress => some (.program a)
    | .eraseUnlocked2 =>
        if v = 0x30 ∨ v = 0x50 then some (.sectorErase a)
        else if a = 0x5555 ∧ v = 0x10 then some .chipErase
        else none
    | _ => none

/-- A chip with the commands executed so far and the number of callback calls. -/
structure WatchedChip where
  chip : NorChip
  log : List ChipCommand
  calls : Nat

/-- The chip on the bus. The callback, when there is one, answers its calls in any way. -/
def watchedBus (β : NorBehaviour) (answers : Option (Nat → Bool)) : FlashBus WatchedChip where
  read dw d := ((NorChip.read β dw d.chip).1, { d with chip := (NorChip.read β dw d.chip).2 })
  write dw b d := { d with chip := NorChip.write β dw b d.chip, log := d.log ++ (executed β dw b d.chip).toList }
  callback := answers.map fun answer _ _ _ d => (answer d.calls, { d with calls := d.calls + 1 })

/-- A chip erase is given only when the region is the whole chip, after the block erases of the current attempt, and
    when an earlier attempt in the same 4K block had tried block erase. -/
def ChipEraseGuarded (start len chipLength : Nat) (log : List ChipCommand) : Prop :=
  ∀ before after, log = before ++ .chipErase :: after → (start = 0 ∧ len = chipLength) ∧
    ∃ earlier dw a, before = earlier ++ [.sectorErase dw, .sectorErase dw] ∧
      .sectorErase a ∈ earlier ∧ block4K a = block4K dw

theorem ChipEraseGuarded.nil (start len chipLength : Nat) : ChipEraseGuarded start len chipLength [] := by
  intro before after h
  simp at h

theorem ChipEraseGuarded.append {start len chipLength : Nat} {log : List ChipCommand} {command : ChipCommand}
    (h : ChipEraseGuarded start len chipLength log)
    (last : command = .chipErase → (start = 0 ∧ len = chipLength) ∧
      ∃ earlier dw a, log = earlier ++ [.sectorErase dw, .sectorErase dw] ∧
        .sectorErase a ∈ earlier ∧ block4K a = block4K dw) :
    ChipEraseGuarded start len chipLength (log ++ [command]) := by
  intro before after heq
  rcases List.eq_nil_or_concat after with rfl | ⟨after, command', rfl⟩
  · obtain ⟨rfl, hlast⟩ := List.append_inj' heq rfl
    exact last (List.cons.inj hlast).1
  · rw [List.concat_eq_append, ← List.cons_append, ← List.append_assoc] at heq
    exact h before after (List.append_inj' heq rfl).1

variable {β : NorBehaviour} {answers : Option (Nat → Bool)} {initial : Nat → UInt8} {start len chipLength i : Nat}
  {M : NorMode → Prop} {A : (Nat → UInt8) → List ChipCommand → Prop}

/-! ### The contents -/

/-- The first `i` bytes of the region are erased, and the changes since the start are where they may be. -/
structure Scanned (β : NorBehaviour) (initial : Nat → UInt8) (start len chipLength i : Nat) (array : Nat → UInt8)
    (log : List ChipCommand) : Prop where
  erased : ∀ j < i, array (u32 (start + j)) = 0xff
  within : ∀ a, array a ≠ initial a →
    (∃ j < len, β.sector (u32 (start + j)) = β.sector a) ∨ .chipErase ∈ log ∧ a < β.length
  guarded : ChipEraseGuarded start len chipLength log

/-- An erase command keeps what is erased, and changes only where it reaches. -/
theorem Scanned.erase {array : Nat → UInt8} {log : List ChipCommand} {command : ChipCommand}
    (h : Scanned β initial start len chipLength i array log) {reached : Nat → Bool}
    (hreached : ∀ a, reached a = true →
      (∃ j < len, β.sector (u32 (start + j)) = β.sector a) ∨ command = .chipErase ∧ a < β.length)
    (guarded : ChipEraseGuarded start len chipLength (log ++ [command])) :
    Scanned β initial start len chipLength i (fun a => if reached a then 0xff else array a) (log ++ [command]) where
  erased := by
    intro j hj
    rw [h.erased j hj, ite_self]
  within := by
    intro a ha
    by_cases hr : reached a = true
    · rcases hreached a hr with hregion | ⟨rfl, hlength⟩
      · exact Or.inl hregion
      · exact Or.inr ⟨List.mem_append_right _ (List.mem_singleton.mpr rfl), hlength⟩
    · rw [if_neg hr] at ha
      exact (h.within a ha).imp_right fun hc => ⟨List.mem_append_left _ hc.1, hc.2⟩
  guarded := guarded

/-! ### The driver on the watched chip -/

/-- The mode of the chip, the flash object, and a property of the contents and the log. -/
structure Watching (β : NorBehaviour) (start len chipLength : Nat) (M : NorMode → Prop)
    (A : (Nat → UInt8) → List ChipCommand → Prop) (s : FlashState WatchedChip) : Prop where
  mode : M s.dev.chip.mode
  convention : s.pof.fDetectedUsing28xxxConventions = β.uses28
  startOffset : s.pof.dwStartOffset = start
  usedArea : s.pof.dwLengthUsedArea = len
  lengthInBytes : s.pof.dwLengthInBytes = chipLength
  contents : A s.dev.chip.array s.dev.log

/-- The watched chip in array mode. -/
abbrev Idle (β : NorBehaviour) (start len chipLength : Nat) (A : (Nat → UInt8) → List ChipCommand → Prop) :
    FlashState WatchedChip → Prop :=
  Watching β start len chipLength (· = .array) A

theorem watched_readByte_idle (dw : Nat) :
    Triple (Idle β start len chipLength A) (readByte (watchedBus β answers) dw)
      (fun b s => Idle β start len chipLength A s ∧ b = s.dev.chip.array dw) := by
  intro s hs b s' hrun
  have hread : NorChip.read β dw s.dev.chip = (s.dev.chip.array dw, s.dev.chip) := by
    simp only [NorChip.read, hs.mode]
  simp only [readByte, watchedBus, hread, Option.some.injEq, Prod.mk.injEq] at hrun
  obtain ⟨rfl, rfl⟩ := hrun
  exact ⟨hs, rfl⟩

theorem watched_notify (ee : EnumEvents) (dwPos dwExtent : Nat) :
    Triple (Watching β start len chipLength M A) (notify (watchedBus β answers) ee dwPos dwExtent)
      (fun _ => Watching β start len chipLength M A) := by
  intro s hs goOn s' hrun
  cases answers with
  | none =>
      cases hrun
      exact hs
  | some answer =>
      cases hrun
      exact ⟨hs.mode, hs.convention, hs.startOffset, hs.usedArea, hs.lengthInBytes, hs.contents⟩

theorem watched_setErrorInfo (text : String) :
    Triple (Watching β start len chipLength M A) (setErrorInfo text) (fun _ => Watching β start len chipLength M A) :=
  Triple.modify fun _ hs =>
    ⟨hs.mode, hs.convention, hs.startOffset, hs.usedArea, hs.lengthInBytes, hs.contents⟩

/-- The watched chip after a list of bus writes. -/
def watchedAfter (β : NorBehaviour) (writes : List (Nat × UInt8)) (d : WatchedChip) : WatchedChip :=
  writes.foldl (fun d w => (watchedBus β none).write w.1 w.2 d) d

/-- A command that takes the chip from `M` to `M'`. -/
theorem watched_writeBytes {M' : NorMode → Prop} {A' : (Nat → UInt8) → List ChipCommand → Prop}
    (writes : List (Nat × UInt8))
    (step : ∀ d : WatchedChip, M d.chip.mode → A d.chip.array d.log →
      M' (watchedAfter β writes d).chip.mode ∧ A' (watchedAfter β writes d).chip.array (watchedAfter β writes d).log) :
    Triple (Watching β start len chipLength M A) (writeBytes (watchedBus β answers) writes)
      (fun _ => Watching β start len chipLength M' A') := by
  have hwrites : ∀ (l : List (Nat × UInt8)) (s : FlashState WatchedChip),
      writeBytes (watchedBus β answers) l s = some ((), { s with dev := watchedAfter β l s.dev }) := by
    intro l
    induction l with
    | nil => exact fun _ => rfl
    | cons w rest ih => exact fun s => ih { s with dev := (watchedBus β none).write w.1 w.2 s.dev }
  intro s hs a s' hrun
  rw [hwrites] at hrun
  cases hrun
  obtain ⟨hmode, hcontents⟩ := step s.dev hs.mode hs.contents
  exact ⟨hmode, hs.convention, hs.startOffset, hs.usedArea, hs.lengthInBytes, hcontents⟩

/-! ### Waiting -/

/-- A read of a chip that may be busy shows a toggle bit that the next read will not show. -/
theorem watched_readByte_toggling (dw : Nat) :
    Triple (Watching β start len chipLength Working A) (readByte (watchedBus β answers) dw)
      (fun b => Watching β start len chipLength (Toggling b) A) := by
  intro s hs b s' hrun
  simp only [readByte, watchedBus, Option.some.injEq, Prod.mk.injEq] at hrun
  obtain ⟨rfl, rfl⟩ := hrun
  refine ⟨?_, hs.convention, hs.startOffset, hs.usedArea, hs.lengthInBytes, ?_⟩
  · rcases hs.mode with hmode | ⟨reads, hpos, hmode⟩
    · exact Or.inl (by simp [NorChip.read, hmode])
    · by_cases hlast : reads ≤ 1
      · exact Or.inl (by simp [NorChip.read, hmode, hlast])
      · refine Or.inr ⟨reads - 1, by omega, by simp [NorChip.read, hmode, hlast], ?_⟩
        simp only [NorChip.read, hmode]
        rw [toggle_bit]
        exact toggle_pred reads hpos
  · have harray : (NorChip.read β dw s.dev.chip).2.array = s.dev.chip.array := by
      rcases hs.mode with hmode | ⟨reads, -, hmode⟩
      · simp [NorChip.read, hmode]
      · simp [NorChip.read, hmode]
    change A (NorChip.read β dw s.dev.chip).2.array s.dev.log
    rw [harray]
    exact hs.contents

theorem Toggling.working {b : UInt8} {mode : NorMode} (h : Toggling b mode) : Working mode := by
  rcases h with h | ⟨reads, hpos, hmode, -⟩
  · exact Or.inl h
  · exact Or.inr ⟨reads, hpos, hmode⟩

/-- The wait loop is left only when the chip is back in array mode. -/
theorem watched_toggleWait (dw fuel : Nat) : ∀ (b : UInt8) (dwCountTries : Nat),
    Triple (Watching β start len chipLength (Toggling b) A) (toggleWait (watchedBus β answers) dw fuel b dwCountTries)
      (fun _ => Idle β start len chipLength A) := by
  induction fuel with
  | zero => exact fun _ _ => Triple.stuck
  | succ fuel ih =>
      intro b dwCountTries s hs n s' hrun
      rw [toggleWait] at hrun
      obtain ⟨r, s₁, hread, hrun⟩ := bind_eq_some hrun
      have hs₁ := watched_readByte_toggling dw s { hs with mode := hs.mode.working } r s₁ hread
      rcases hs.mode with hmode | ⟨reads, hpos, hmode, hdiffers⟩
      · have hidle : Idle β start len chipLength A s := { hs with mode := hmode }
        have hidle₁ := (watched_readByte_idle dw s hidle r s₁ hread).1
        split at hrun
        case isTrue => exact ih (b ^^^ 0x40) _ s₁ { hidle₁ with mode := Or.inl hidle₁.mode } n s' hrun
        case isFalse =>
          cases hrun
          exact hidle₁
      · -- the bit that was read differs from the expected one, and so it will again
        have hbit : r &&& 0x40 = NorChip.toggle reads := by
          simp only [readByte, watchedBus, NorChip.read, hmode, Option.some.injEq, Prod.mk.injEq] at hread
          rw [← hread.1]
          exact toggle_bit _ reads
        rw [if_pos (by rw [hbit]; exact hdiffers)] at hrun
        refine ih (b ^^^ 0x40) _ s₁ { hs₁ with mode := ?_ } n s' hrun
        rcases hs₁.mode with hdone | ⟨reads', hpos', hmode', hdiffers'⟩
        · exact Or.inl hdone
        · refine Or.inr ⟨reads', hpos', hmode', ?_⟩
          rwa [flip_bit b reads hdiffers, ← hbit]

theorem watched_readByte_status (dw : Nat) :
    Triple (Watching β start len chipLength (· = .statusRegister) A) (readByte (watchedBus β answers) dw)
      (fun _ => Watching β start len chipLength (· = .statusRegister) A) := by
  intro s hs b s' hrun
  simp only [readByte, watchedBus, NorChip.read, hs.mode, Option.some.injEq, Prod.mk.injEq] at hrun
  obtain ⟨rfl, rfl⟩ := hrun
  exact ⟨rfl, hs.convention, hs.startOffset, hs.usedArea, hs.lengthInBytes, hs.contents⟩

theorem watched_spinErase28 (dw fuel : Nat) : ∀ (b : UInt8) (n : Nat),
    Triple (Watching β start len chipLength (· = .statusRegister) A)
      (spinErase28 (watchedBus β answers) dw fuel b n)
      (fun _ => Watching β start len chipLength (· = .statusRegister) A) := by
  induction fuel with
  | zero => exact fun _ _ => Triple.stuck
  | succ fuel ih =>
      intro b n
      refine Triple.ite (fun _ => ?_) fun _ => Triple.pure fun _ h => h
      exact Triple.bind (watched_readByte_status dw) fun b => ih b (n - 1)

/-! ### Erase commands -/

/-- The unlock cycles before an erase command. -/
theorem watchedAfter_unlock (uses29 : β.uses28 = false) (writes : List (Nat × UInt8)) (d : WatchedChip)
    (mode : d.chip.mode = .array) :
    watchedAfter β (eraseUnlock ++ writes) d =
      watchedAfter β writes { d with chip := { d.chip with mode := .eraseUnlocked2 } } := by
  obtain ⟨⟨m, array, commands, polls⟩, log, calls⟩ := d
  subst mode
  simp [watchedAfter, eraseUnlock, watchedBus, NorChip.write, uses29, NorChip.write29, executed]

/-- The six cycles of a 29xxx erase command, from array mode. -/
theorem watchedAfter_sectorErase (uses29 : β.uses28 = false) (dw : Nat) {v : UInt8} (hv : v = 0x30 ∨ v = 0x50)
    (d : WatchedChip) (mode : d.chip.mode = .array) :
    watchedAfter β (eraseUnlock ++ [(dw, v)]) d =
      { d with
        chip := { d.chip.erase β (fun x => β.sector x == β.sector dw) with
          mode := NorChip.executing β d.chip.commands }
        log := d.log ++ [.sectorErase dw] } := by
  rw [watchedAfter_unlock uses29 _ d mode]
  simp [watchedAfter, watchedBus, NorChip.write, uses29, NorChip.write29, executed, hv, NorChip.erase]

theorem watchedAfter_chipErase (uses29 : β.uses28 = false) (d : WatchedChip) (mode : d.chip.mode = .array) :
    watchedAfter β (eraseUnlock ++ [(0x5555, 0x10)]) d =
      { d with
        chip := { d.chip.erase β (fun x => x < β.length) with mode := NorChip.executing β d.chip.commands }
        log := d.log ++ [.chipErase] } := by
  rw [watchedAfter_unlock uses29 _ d mode]
  simp [watchedAfter, watchedBus, NorChip.write, uses29, NorChip.write29, executed, NorChip.erase]

theorem watchedAfter_reset (uses29 : β.uses28 = false) (d : WatchedChip) (mode : d.chip.mode = .array) :
    watchedAfter β resetUnlock d = d := by
  obtain ⟨⟨m, array, commands, polls⟩, log, calls⟩ := d
  subst mode
  simp [watchedAfter, resetUnlock, watchedBus, NorChip.write, uses29, NorChip.write29, executed]

/-! ### Attempts -/

/-- The contents are as they may be, and the log is known. -/
def Stage (β : NorBehaviour) (initial : Nat → UInt8) (start len chipLength i : Nat) (log : List ChipCommand)
    (array : Nat → UInt8) (lg : List ChipCommand) : Prop :=
  Scanned β initial start len chipLength i array lg ∧ lg = log

/-- An attempt has tried block erase at `dw`. -/
def BlockTried (β : NorBehaviour) (initial : Nat → UInt8) (start len chipLength i dw : Nat) (array : Nat → UInt8)
    (lg : List ChipCommand) : Prop :=
  Scanned β initial start len chipLength i array lg ∧ .sectorErase dw ∈ lg

theorem watched_eraseCommand29 {A' : (Nat → UInt8) → List ChipCommand → Prop} (fuel dw : Nat)
    (command : List (Nat × UInt8))
    (step : ∀ d : WatchedChip, d.chip.mode = .array → A d.chip.array d.log →
      Working (watchedAfter β command d).chip.mode ∧
        A' (watchedAfter β command d).chip.array (watchedAfter β command d).log) :
    Triple (Idle β start len chipLength A) (eraseCommand29 (watchedBus β answers) fuel dw command)
      (fun _ => Idle β start len chipLength A') :=
  Triple.bind (watched_writeBytes command step) fun _ =>
    Triple.bind (watched_readByte_toggling dw) fun b => watched_toggleWait dw fuel b 0

/-- A block erase of the sector of a byte of the region. -/
theorem Scanned.sectorErase {array : Nat → UInt8} {log : List ChipCommand} {j k : Nat} (hj : j < len)
    (h : Scanned β initial start len chipLength i array log) :
    Scanned β initial start len chipLength i
      (fun a => if β.sector a == β.sector (u32 (start + j)) && β.erased k a then 0xff else array a)
      (log ++ [.sectorErase (u32 (start + j))]) := by
  apply h.erase
  · intro a ha
    have hsector : β.sector a = β.sector (u32 (start + j)) := by
      simp only [Bool.and_eq_true, beq_iff_eq] at ha
      exact ha.1
    exact Or.inl ⟨j, hj, hsector.symm⟩
  · exact h.guarded.append fun hc => by cases hc

theorem stage_sectorErase (uses29 : β.uses28 = false) {v : UInt8} (hv : v = 0x30 ∨ v = 0x50) {j : Nat} (hj : j < len)
    {log : List ChipCommand} (d : WatchedChip) (mode : d.chip.mode = .array)
    (h : Stage β initial start len chipLength i log d.chip.array d.log) :
    Working (watchedAfter β (eraseUnlock ++ [(u32 (start + j), v)]) d).chip.mode ∧
      Stage β initial start len chipLength i (log ++ [.sectorErase (u32 (start + j))])
        (watchedAfter β (eraseUnlock ++ [(u32 (start + j), v)]) d).chip.array
        (watchedAfter β (eraseUnlock ++ [(u32 (start + j), v)]) d).log := by
  rw [watchedAfter_sectorErase uses29 _ hv d mode]
  obtain ⟨hscanned, rfl⟩ := h
  exact ⟨executing_working _, hscanned.sectorErase hj, rfl⟩

theorem watchedAfter_append (writes writes' : List (Nat × UInt8)) (d : WatchedChip) :
    watchedAfter β (writes ++ writes') d = watchedAfter β writes' (watchedAfter β writes d) :=
  List.foldl_append

theorem watched_eraseAttempt29 (uses29 : β.uses28 = false) (fuel tries : Nat) {j : Nat} (hj : j < len)
    (log : List ChipCommand)
    (earlier : tries < 2 → ∃ a, .sectorErase a ∈ log ∧ block4K a = block4K (u32 (start + j))) :
    Triple (Idle β start len chipLength (Stage β initial start len chipLength i log))
      (eraseAttempt29 (watchedBus β answers) fuel (u32 (start + j)) tries)
      (fun _ => Idle β start len chipLength (BlockTried β initial start len chipLength i (u32 (start + j)))) := by
  have hstage : ∀ {l : List ChipCommand} {s : FlashState WatchedChip}, .sectorErase (u32 (start + j)) ∈ l →
      Idle β start len chipLength (Stage β initial start len chipLength i l) s →
      Idle β start len chipLength (BlockTried β initial start len chipLength i (u32 (start + j))) s := by
    intro l s hl hs
    exact { hs with contents := ⟨hs.contents.1, hs.contents.2 ▸ hl⟩ }
  have hmem : ∀ l : List ChipCommand, .sectorErase (u32 (start + j)) ∈ l ++ [.sectorErase (u32 (start + j))] :=
    fun l => List.mem_append_right _ (List.mem_singleton.mpr rfl)
  refine Triple.bind (watched_eraseCommand29 fuel _ _ (stage_sectorErase uses29 (Or.inr rfl) hj)) fun n => ?_
  -- the second block erase is left out only when the chip got busy with the first
  refine Triple.bind (Q := fun n' s =>
      Idle β start len chipLength (BlockTried β initial start len chipLength i (u32 (start + j))) s ∧
      (n' < 3 → Idle β start len chipLength (Stage β initial start len chipLength i
        (log ++ [.sectorErase (u32 (start + j))] ++ [.sectorErase (u32 (start + j))])) s))
    (Triple.ite (fun _ => ?_) fun hbusy => ?_) fun n' => ?_
  · refine (watched_eraseCommand29 fuel _ _ fun d mode h => ?_).post fun n' s hs => ⟨hstage (hmem _) hs, fun _ => hs⟩
    rw [List.append_assoc, watchedAfter_append, watchedAfter_reset uses29 d mode]
    exact stage_sectorErase uses29 (Or.inl rfl) hj d mode h
  · exact Triple.pure fun s hs => ⟨hstage (hmem log) hs, fun h => absurd h hbusy⟩
  · refine Triple.get fun r hr => Triple.ite (fun hchip => ?_) fun _ => Triple.pure fun s hs => hs.1
    obtain ⟨hn', htries, hoffset, hlength⟩ := hchip
    have hwhole : start = 0 ∧ len = chipLength := by
      rw [hr.1.startOffset] at hoffset
      rw [hr.1.usedArea, hr.1.lengthInBytes] at hlength
      exact ⟨hoffset, hlength⟩
    refine Triple.bind (Triple.weaken (watched_eraseCommand29 fuel _ _ fun d mode h => ?_) (fun s hs => hs.2 hn')
      fun _ _ h => h) fun _ => Triple.pure fun s hs => hs
    rw [List.append_assoc, watchedAfter_append, watchedAfter_reset uses29 d mode, watchedAfter_chipErase uses29 d mode]
    obtain ⟨hscanned, hlog⟩ := h
    refine ⟨executing_working _, ?_, List.mem_append_left _ (hlog ▸ hmem _)⟩
    apply hscanned.erase
    · intro a ha
      simp only [Bool.and_eq_true, decide_eq_true_eq] at ha
      exact Or.inr ⟨rfl, ha.1⟩
    · refine hscanned.guarded.append fun _ => ⟨hwhole, log, u32 (start + j), ?_⟩
      obtain ⟨a, ha, hblock⟩ := earlier htries
      refine ⟨a, ?_, ha, hblock⟩
      rw [hlog, List.append_assoc]
      rfl

theorem watched_notifyFailure (dw : Nat) (error theEnd : EnumEvents) (dwPos : ObjectFlash → Nat)
    (dwExtent : UInt8 → Nat) :
    Triple (Idle β start len chipLength A) (notifyFailure (watchedBus β answers) dw error theEnd dwPos dwExtent)
      (fun _ => Idle β start len chipLength A) := by
  refine Triple.ite (fun _ => ?_) fun _ => Triple.pure fun _ h => h
  refine Triple.bind ((watched_readByte_idle dw).post fun _ _ h => h.1) fun read => Triple.get fun s _ => ?_
  refine Triple.bind (watched_notify _ _ _) fun _ => ?_
  exact Triple.bind (watched_notify _ _ _) fun _ => Triple.pure fun _ h => h

theorem watched_eraseAttempt28 (uses28 : β.uses28 = true) (fuel : Nat) {j : Nat} (hj : j < len) :
    Triple (Idle β start len chipLength (Scanned β initial start len chipLength i))
      (eraseAttempt28 (watchedBus β answers) fuel (u32 (start + j)))
      (fun _ => Idle β start len chipLength (BlockTried β initial start len chipLength i (u32 (start + j)))) := by
  refine Triple.bind (Q := fun _ => Watching β start len chipLength (· = .statusRegister)
    (BlockTried β initial start len chipLength i (u32 (start + j))))
    (watched_writeBytes _ fun d mode h => ?_) fun _ => ?_
  · obtain ⟨⟨m, array, commands, polls⟩, log, calls⟩ := d
    subst mode
    have hafter : watchedAfter β [(0x5555, 0x50), (u32 (start + j), 0x20), (u32 (start + j), 0xd0)]
        ⟨⟨.array, array, commands, polls⟩, log, calls⟩ =
        ⟨{ NorChip.erase β ⟨.array, array, commands, polls⟩ (fun x => β.sector x == β.sector (u32 (start + j))) with
          mode := .statusRegister }, log ++ [.sectorErase (u32 (start + j))], calls⟩ := by
      simp [watchedAfter, watchedBus, NorChip.write, uses28, NorChip.write28, executed, NorChip.erase]
    rw [hafter]
    exact ⟨rfl, h.sectorErase hj, List.mem_append_right _ (List.mem_singleton.mpr rfl)⟩
  refine Triple.bind (watched_spinErase28 _ fuel _ _) fun b => ?_
  refine Triple.bind (Q := fun _ => Idle β start len chipLength
    (BlockTried β initial start len chipLength i (u32 (start + j))))
    (watched_writeBytes _ fun d mode h => ?_) fun _ => ?_
  · simpa [watchedAfter, watchedBus, NorChip.write, uses28, NorChip.write28, executed, mode] using h
  refine Triple.ite (fun _ => ?_) fun _ => Triple.pure fun _ h => h
  refine Triple.bind (watched_notifyFailure _ _ _ _ _) fun _ => ?_
  exact Triple.bind (watched_setErrorInfo _) fun _ => Triple.pure fun _ h => h

/-- An attempt in either convention. -/
theorem watched_eraseAttempt (fuel tries : Nat) {j : Nat} (hj : j < len) :
    Triple (Idle β start len chipLength fun array log => Scanned β initial start len chipLength i array log ∧
        (tries < 2 → ∃ a, .sectorErase a ∈ log ∧ block4K a = block4K (u32 (start + j))))
      (eraseAttempt (watchedBus β answers) fuel (u32 (start + j)) tries)
      (fun _ => Idle β start len chipLength (BlockTried β initial start len chipLength i (u32 (start + j)))) := by
  refine Triple.get fun r hr => Triple.ite (fun h28 => ?_) fun h29 => ?_
  · refine (watched_eraseAttempt28 (hr.convention ▸ h28) fuel hj).weaken (fun s hs => ?_) fun _ _ h => h
    exact { hs with contents := hs.contents.1 }
  · have uses29 : β.uses28 = false := by
      rw [← hr.convention]
      exact Bool.eq_false_iff.mpr h29
    refine Triple.bind (Q := fun _ => Idle β start len chipLength
      (BlockTried β initial start len chipLength i (u32 (start + j)))) ?_ fun _ => Triple.pure fun _ h => h
    intro s hs
    exact watched_eraseAttempt29 uses29 fuel tries hj s.dev.log hs.contents.2 s
      { hs with contents := ⟨hs.contents.1, rfl⟩ }

/-! ### The loop -/

/-- The tries left in the 4K block `block`: a counter below its start means that block erase was tried there. -/
def Tried (block tries : Nat) (log : List ChipCommand) : Prop :=
  tries ≤ 4 ∧ (tries < 4 → ∃ a, .sectorErase a ∈ log ∧ block4K a = block)

/-- The invariant of the erase loop at byte `i` of the region. -/
def EraseInv (β : NorBehaviour) (initial : Nat → UInt8) (start len chipLength i block tries : Nat)
    (s : FlashState WatchedChip) : Prop :=
  Idle β start len chipLength (fun array log => Scanned β initial start len chipLength i array log ∧
    Tried block tries log) s

/-- What is left at the end of the loop. -/
def EraseEnds (β : NorBehaviour) (initial : Nat → UInt8) (start len chipLength : Nat) (o : ScanOutcome)
    (s : FlashState WatchedChip) : Prop :=
  Idle β start len chipLength (fun array log => Scanned β initial start len chipLength 0 array log ∧
    (o = .completed → Scanned β initial start len chipLength len array log)) s

theorem Scanned.zero {array : Nat → UInt8} {log : List ChipCommand}
    (h : Scanned β initial start len chipLength i array log) : Scanned β initial start len chipLength 0 array log :=
  ⟨fun _ hj => absurd hj (Nat.not_lt_zero _), h.within, h.guarded⟩

/-- One more byte reads as erased. -/
theorem Scanned.next {array : Nat → UInt8} {log : List ChipCommand}
    (h : Scanned β initial start len chipLength i array log) (hi : array (u32 (start + i)) = 0xff) :
    Scanned β initial start len chipLength (i + 1) array log := by
  refine ⟨fun j hj => ?_, h.within, h.guarded⟩
  rcases Nat.lt_succ_iff_lt_or_eq.mp hj with hj | rfl
  · exact h.erased j hj
  · exact hi

theorem EraseInv.ends {block tries : Nat} {o : ScanOutcome} {s : FlashState WatchedChip}
    (h : EraseInv β initial start len chipLength i block tries s) (ho : o ≠ .completed) :
    EraseEnds β initial start len chipLength o s :=
  { h with contents := ⟨h.contents.1.zero, fun hc => absurd hc ho⟩ }

/-- After an attempt the same byte is looked at again, or the erase has failed. -/
theorem BlockTried.inv {block tries dw : Nat} {more : Bool} {s : FlashState WatchedChip}
    (h : Idle β start len chipLength (BlockTried β initial start len chipLength i dw) s) (htries : tries ≤ 4)
    (hblock : block4K dw = block) :
    if more then EraseInv β initial start len chipLength i block tries s
    else EraseEnds β initial start len chipLength .failed s := by
  have hinv : EraseInv β initial start len chipLength i block tries s :=
    { h with contents := ⟨h.contents.1, htries, fun _ => ⟨dw, h.contents.2, hblock⟩⟩ }
  cases more with
  | true => exact hinv
  | false => exact hinv.ends ScanOutcome.noConfusion

theorem watched_keeps :
    RetryScan.Keeps (eraseScan (watchedBus β answers) start) len (EraseInv β initial start len chipLength)
      (EraseInv β initial start len chipLength)
      (fun s => ∃ i block tries, EraseInv β initial start len chipLength i block tries s)
      (EraseEnds β initial start len chipLength) where
  wrong := by
    intro i k t hi
    refine Triple.bind (watched_readByte_idle _) fun b => Triple.pure fun s hs => ?_
    by_cases hb : b = 0xff
    · rw [if_neg (by simp [hb])]
      exact { hs.1 with contents := ⟨hs.1.contents.1.next (hs.2 ▸ hb), hs.1.contents.2⟩ }
    · rw [if_pos (by simp [hb])]
      exact hs.1
  advance := by
    intro i k t hi
    refine Triple.get fun r _ => ?_
    have hkeeps : Triple (EraseInv β initial start len chipLength (i + 1) k t)
        (notifyEvery1K (watchedBus β answers) .eraseUpdate (u32 (start + i))
          (ByteMemory.sub32 (u32 (start + i)) r.pof.dwStartOffset) r.pof.dwLengthUsedArea)
        fun _ => EraseInv β initial start len chipLength (i + 1) k t :=
      Triple.ite (fun _ => watched_notify _ _ _) fun _ => Triple.pure fun _ h => h
    refine hkeeps.post fun goOn s hs => ?_
    cases goOn with
    | true => exact hs
    | false => exact ⟨i + 1, k, t, hs⟩
  abort := by
    intro s hs a s' hrun
    obtain ⟨i, block, tries, hinv⟩ := hs
    exact EraseInv.ends (watched_setErrorInfo _ s hinv a s' hrun) ScanOutcome.noConfusion
  again := by
    intro spin i k t hi hk ht
    have hattempt := @watched_eraseAttempt β answers initial start len chipLength i spin (t - 1) i hi
    intro s hs more s' hrun
    have hafter := hattempt s ?_ more s' hrun
    · exact BlockTried.inv hafter (by have := hs.contents.2.1; omega) hk.symm
    · refine { hs with contents := ⟨hs.contents.1, fun hlast => ?_⟩ }
      obtain ⟨a, ha, hblock⟩ := hs.contents.2.2 (by omega)
      exact ⟨a, ha, hblock.trans hk⟩
  anew := by
    intro spin i k t hi hk
    have hattempt := @watched_eraseAttempt β answers initial start len chipLength i spin 4 i hi
    intro s hs more s' hrun
    refine BlockTried.inv (hattempt s ?_ more s' hrun) (Nat.le_refl 4) rfl
    exact { hs with contents := ⟨hs.contents.1, fun h => absurd h (by decide)⟩ }
  giveUp := by
    intro i k t hi _ _
    have hkeeps : Triple (EraseInv β initial start len chipLength i k t)
        (eraseGiveUp (watchedBus β answers) (u32 (start + i)))
        fun _ => EraseInv β initial start len chipLength i k t := by
      refine Triple.bind (watched_notifyFailure _ _ _ _ _) fun _ => ?_
      refine Triple.bind ((watched_readByte_idle _).post fun _ _ h => h.1) fun read => ?_
      exact Triple.bind (watched_setErrorInfo _) fun _ => Triple.pure fun _ h => h
    exact hkeeps.post fun _ s hs => hs.ends ScanOutcome.noConfusion
  finish := by
    intro k t
    refine (watched_notify _ _ _).post fun ok s hs => ?_
    exact { hs with contents := ⟨hs.contents.1.zero, fun _ => hs.contents.1⟩ }

/-- The erase on a watched chip, with the history of its loop. -/
theorem watched_eraseHistory (fuel : Nat) :
    Triple (Idle β start len chipLength (Scanned β initial start len chipLength 0))
      (eraseHistory (watchedBus β answers) fuel) fun h => EraseEnds β initial start len chipLength h.outcome := by
  refine Triple.bind (watched_setErrorInfo _) fun _ => Triple.bind (watched_notify _ _ _) fun goOn =>
    Triple.ite (fun _ => ?_) fun _ => ?_
  · refine Triple.get fun r hr => ?_
    rw [hr.startOffset, hr.usedArea]
    refine (RetryScan.run_rule watched_keeps fuel fuel 0 len _ _ (Nat.zero_add len)).weaken (fun s hs => ?_) fun _ _ h => h
    exact { hs with contents := ⟨hs.contents, Nat.le_refl 4, fun h => absurd h (Nat.lt_irrefl 4)⟩ }
  · refine Triple.bind (watched_setErrorInfo _) fun _ => Triple.pure fun s hs => ?_
    exact { hs with contents := ⟨hs.contents, fun h => by cases h⟩ }

/-- For every chip and failure pattern, every callback and every region: success means that the region is erased; on
    every outcome only sectors that meet the region have changed, except by a chip erase; and a chip erase is given
    only for the whole chip, after block erase was tried in the 4K block. -/
theorem erase_erases_region (β : NorBehaviour) (answers : Option (Nat → Bool)) (fuel : Nat)
    (s s' : FlashState WatchedChip) (ok : Bool) (mode : s.dev.chip.mode = .array)
    (convention : s.pof.fDetectedUsing28xxxConventions = β.uses28) (fresh : s.dev.log = [])
    (offset : s.pof.dwStartOffset < 2 ^ 32)
    (run : bootFlashEraseMinimalRegion (watchedBus β answers) fuel s = some (ok, s')) :
    (ok = true → ∀ i < s.pof.dwLengthUsedArea, s'.dev.chip.array (u32 (s.pof.dwStartOffset + i)) = 0xff) ∧
    (∀ a, s'.dev.chip.array a ≠ s.dev.chip.array a →
      (∃ i < s.pof.dwLengthUsedArea, β.sector (u32 (s.pof.dwStartOffset + i)) = β.sector a) ∨
        .chipErase ∈ s'.dev.log ∧ a < β.length) ∧
    ChipEraseGuarded s.pof.dwStartOffset s.pof.dwLengthUsedArea s.pof.dwLengthInBytes s'.dev.log := by
  obtain ⟨h, hhistory, rfl⟩ := run_of_history (bootFlashEraseMinimalRegion_eq _ fuel offset) run
  have hstart : Scanned β s.dev.chip.array s.pof.dwStartOffset s.pof.dwLengthUsedArea s.pof.dwLengthInBytes 0
      s.dev.chip.array s.dev.log :=
    ⟨fun _ hj => absurd hj (Nat.not_lt_zero _), fun _ ha => absurd rfl ha, fresh ▸ ChipEraseGuarded.nil _ _ _⟩
  have hends := watched_eraseHistory fuel s ⟨mode, convention, rfl, rfl, rfl, hstart⟩ h s' hhistory
  refine ⟨fun hok => ?_, hends.contents.1.within, hends.contents.1.guarded⟩
  exact (hends.contents.2 (of_decide_eq_true hok)).erased

/-- A chip with one programmed byte. -/
def oneByteProgrammed : FlashState WatchedChip where
  pof := ⟨0x01, 0xa4, "AMD - Am29F040B", "", 0x80000, 0, 2, false, true⟩
  dev := ⟨⟨.array, fun a => if a = 1 then 0 else 0xff, 0, 0⟩, [], 0⟩

theorem erase_erases_two_bytes : ∃ s',
    bootFlashEraseMinimalRegion (watchedBus amdChip none) 8 oneByteProgrammed = some (true, s') ∧
      ∀ i < 2, s'.dev.chip.array (u32 (0 + i)) = 0xff := by
  have hrun : (bootFlashEraseMinimalRegion (watchedBus amdChip none) 8 oneByteProgrammed).map Prod.fst = some true := by
    decide +kernel
  obtain ⟨⟨ok, s'⟩, run, rfl⟩ := Option.map_eq_some_iff.mp hrun
  exact ⟨s', run, (erase_erases_region amdChip none 8 oneByteProgrammed s' true rfl rfl rfl (by decide) run).1 rfl⟩

end Cromwell.Flash
