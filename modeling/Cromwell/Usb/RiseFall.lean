/-
Module: Cromwell.Usb.RiseFall
Layer: Model and proofs
Purpose: The buttons of the controller: the packets that its driver takes, and `risefall_xpad_BUTTON`, which reports
  the edges of one button. The history is one byte for each analog button and one byte for the four directions of
  the pad. Each button is a detector of its own: what one poll does to the history concerns the polled button only.
Imports: Cromwell.Lib.EdgeDetector
Trusted boundary: model reviewed against src/drivers/usb/sys/risefall.c, src/drivers/usb/sys/xpad.c, src/include/xpad.h and
  src/include/xremote.h; human-reviewed statement (Controls.level, Controls.results)
Main exports: Controls, xpadIrq, risefallXpadBUTTON, Input, Controls.run, Controls.results, Controls.levels,
  risefall_edges
-/
import Cromwell.Lib.EdgeDetector

namespace Cromwell.Usb

open EdgeDetector

/-! ### The model -/

/-- What the poll of a button looks at: the pending keys of keyboard and remote, `XPAD_current[0].keys` and `pad`, and
    `xpad_button_history`. -/
structure Controls where
  currentKeyboardKey : UInt32
  currentRemoteKey : UInt16
  remotekeyIsRepeat : UInt8
  keys : Fin 6 → UInt8
  pad : UInt8
  xpadButtonHistory : Fin 7 → UInt8

/-- `xpad_irq` of the controller `num`. -/
def xpadIrq (s : Controls) (num : Int) (data : Fin 32 → UInt8) : Controls :=
  if num < 0 ∨ num > 3 then s
  else { s with pad := data 2 &&& 0xf, keys := fun i => data ⟨4 + i, by omega⟩ }

/-- The key of the keyboard that stands for a button. -/
def keyboardKey (selectedButton : UInt8) : Option UInt32 :=
  if selectedButton = 0 then some 0x28
  else if selectedButton = 1 then some 0x29
  else if selectedButton = 6 then some 0x52
  else if selectedButton = 7 then some 0x51
  else if selectedButton = 8 then some 0x50
  else if selectedButton = 9 then some 0x4f
  else none

/-- The key of the remote that stands for a button: `RC_KEY_SELECT`, `RC_KEY_UP`, `RC_KEY_DOWN`, `RC_KEY_LEFT`,
    `RC_KEY_RIGHT` and `RC_KEY_BACK`. -/
def remoteKey (selectedButton : UInt8) : Option UInt16 :=
  if selectedButton = 0 then some 0x0b0a
  else if selectedButton = 6 then some 0xa60a
  else if selectedButton = 7 then some 0xa70a
  else if selectedButton = 8 then some 0xa90a
  else if selectedButton = 9 then some 0xa80a
  else if selectedButton = 5 then some 0xd80a
  else none

/-- `XPAD_PAD_UP`, `XPAD_PAD_DOWN`, `XPAD_PAD_LEFT` and `XPAD_PAD_RIGHT`. -/
def buttonmask (selectedButton : UInt8) : UInt8 :=
  if selectedButton = 6 then 1 else if selectedButton = 7 then 2 else if selectedButton = 8 then 4 else 8

/-- `xpad_button_history[i] = value`. -/
def Controls.remember (s : Controls) (i : Fin 7) (value : UInt8) : Controls :=
  { s with xpadButtonHistory := Function.update s.xpadButtonHistory i value }

/-- The controller section for an analog button. -/
def pollKey (s : Controls) (button : Fin 6) : Int × Controls :=
  let history := s.xpadButtonHistory button.castSucc
  if s.keys button > 0x30 ∧ history = 0 then
    (1, s.remember button.castSucc 1)
  else if s.keys button = 0 ∧ history = 1 then
    (-1, s.remember button.castSucc 0)
  else (0, s)

/-- The controller section for a direction of the pad. -/
def pollPad (s : Controls) (mask : UInt8) : Int × Controls :=
  let history := s.xpadButtonHistory 6
  if s.pad &&& mask ≠ 0 ∧ history &&& mask = 0 then
    (1, s.remember 6 (history ^^^ mask))
  else if s.pad &&& mask = 0 ∧ history &&& mask ≠ 0 then
    (-1, s.remember 6 (history ^^^ mask))
  else (0, s)

/-- `risefall_xpad_BUTTON`. -/
def risefallXpadBUTTON (s : Controls) (selectedButton : UInt8) : Int × Controls :=
  if s.currentKeyboardKey ≠ 0 ∧ keyboardKey selectedButton = some s.currentKeyboardKey then
    (1, { s with currentKeyboardKey := 0 })
  else if s.remotekeyIsRepeat = 0 ∧ remoteKey selectedButton = some s.currentRemoteKey then
    (1, { s with currentRemoteKey := 0, remotekeyIsRepeat := 0 })
  else if h : selectedButton.toNat < 6 then pollKey s ⟨selectedButton.toNat, h⟩
  else if selectedButton.toNat > 5 ∧ selectedButton.toNat < 10 then pollPad s (buttonmask selectedButton)
  else (0, s)

/-! ### Runs -/

/-- A packet of a controller, or a poll of an analog button (0 to 5) or a direction of the pad (6 to 9). -/
inductive Input where
  | irq (num : Int) (data : Fin 32 → UInt8)
  | poll (button : Fin 10)

namespace Controls

/-- The poll of a button. -/
def poll (s : Controls) (button : Fin 10) : Int × Controls := risefallXpadBUTTON s (UInt8.ofNat button)

/-- The controls after an input. -/
def step (s : Controls) : Input → Controls
  | .irq num data => xpadIrq s num data
  | .poll button => (s.poll button).2

/-- The controls after inputs. -/
def run (s : Controls) (inputs : List Input) : Controls := inputs.foldl step s

/-- What the polls of a button return. -/
def results (b : Fin 10) : Controls → List Input → List Int
  | _, [] => []
  | s, .irq num data :: inputs => results b (xpadIrq s num data) inputs
  | s, .poll button :: inputs =>
      if button = b then (s.poll button).1 :: results b (s.poll button).2 inputs
      else results b (s.poll button).2 inputs

/-- No key of the keyboard or of the remote waits to be taken. -/
def NoKeyPending (s : Controls) : Prop := s.currentKeyboardKey = 0 ∧ s.currentRemoteKey = 0

/-- No press was reported, as after `XPADInit`. -/
def Cleared (s : Controls) : Prop := ∀ i, s.xpadButtonHistory i = 0

/-- How a button of the controller stands: an analog button is pressed above 0x30 and released at 0. -/
def level (s : Controls) (b : Fin 10) : Level :=
  if h : b.val < 6 then
    if s.keys ⟨b, h⟩ > 0x30 then .pressed else if s.keys ⟨b, h⟩ = 0 then .released else .between
  else if s.pad &&& buttonmask (UInt8.ofNat b) ≠ 0 then .pressed
  else .released

/-- How a button stands at each of its polls. -/
def levels (b : Fin 10) : Controls → List Input → List Level
  | _, [] => []
  | s, .irq num data :: inputs => levels b (xpadIrq s num data) inputs
  | s, .poll button :: inputs => if button = b then s.level b :: levels b s inputs else levels b s inputs

/-- Whether the history holds a press of a button. -/
def held (s : Controls) (b : Fin 10) : Bool :=
  if h : b.val < 6 then decide (s.xpadButtonHistory ⟨b, by omega⟩ = 1)
  else decide (s.xpadButtonHistory 6 &&& buttonmask (UInt8.ofNat b) ≠ 0)

/-- What holds of the controls along a run. -/
structure Ready (s : Controls) : Prop where
  noKey : s.NoKeyPending
  history : ∀ i : Fin 6, s.xpadButtonHistory i.castSucc = 0 ∨ s.xpadButtonHistory i.castSucc = 1

end Controls

/-! ### Bits of the pad -/

theorem buttonmask_mem (selectedButton : UInt8) : buttonmask selectedButton ∈ [(1 : UInt8), 2, 4, 8] := by
  rw [buttonmask]
  split_ifs
  · decide
  · decide
  · decide
  · decide

theorem buttonmask_ne {b c : Fin 10} (hb : ¬ b.val < 6) (hc : ¬ c.val < 6) (h : b ≠ c) :
    buttonmask (UInt8.ofNat b) &&& buttonmask (UInt8.ofNat c) = 0 := by
  revert b c
  decide +kernel

/-- One bit of a byte. -/
theorem and_mask {mask : UInt8} (h : mask ∈ [(1 : UInt8), 2, 4, 8]) (history : UInt8) :
    history &&& mask = 0 ∨ history &&& mask = mask := by
  have hbit : ∃ k, mask.toNat = 2 ^ k := by
    rcases List.mem_cons.mp h with rfl | h
    · exact ⟨0, rfl⟩
    rcases List.mem_cons.mp h with rfl | h
    · exact ⟨1, rfl⟩
    rcases List.mem_cons.mp h with rfl | h
    · exact ⟨2, rfl⟩
    · exact ⟨3, by rw [List.mem_singleton.mp h]; rfl⟩
  obtain ⟨k, hk⟩ := hbit
  have hand : (history &&& mask).toNat = (history.toNat.testBit k).toNat * mask.toNat := by
    rw [UInt8.toNat_and, hk, Nat.and_two_pow]
  cases hset : history.toNat.testBit k with
  | false =>
      rw [hset, Bool.toNat_false, Nat.zero_mul] at hand
      exact Or.inl (UInt8.toNat_inj.mp hand)
  | true =>
      rw [hset, Bool.toNat_true, Nat.one_mul] at hand
      exact Or.inr (UInt8.toNat_inj.mp hand)

theorem flip_and (history mask mask' : UInt8) :
    (history ^^^ mask) &&& mask' = (history &&& mask') ^^^ (mask &&& mask') := by
  apply UInt8.toBitVec_inj.mp
  ext i
  simp only [UInt8.toBitVec_and, UInt8.toBitVec_xor, BitVec.getElem_and, BitVec.getElem_xor]
  cases history.toBitVec[i] <;> cases mask.toBitVec[i] <;> cases mask'.toBitVec[i] <;> rfl

/-! ### A poll -/

/-- A poll of a button with no key pending is a step of the detector of that button, and of no other. -/
structure Polls (s : Controls) (b : Fin 10) (r : Int × Controls) : Prop where
  result : r.1 = report (s.held b) (s.level b)
  ready : r.2.Ready
  keys : r.2.keys = s.keys
  pad : r.2.pad = s.pad
  own : r.2.held b = next (s.held b) (s.level b)
  others : ∀ c, c ≠ b → r.2.held c = s.held c

section Poll

variable {s : Controls}

/-- A poll that reports nothing. -/
theorem Polls.nothing (hready : s.Ready) {b : Fin 10} (hreport : report (s.held b) (s.level b) = 0)
    (hnext : next (s.held b) (s.level b) = s.held b) : Polls s b (0, s) where
  result := hreport.symm
  ready := hready
  keys := rfl
  pad := rfl
  own := hnext.symm
  others := fun _ _ => rfl

theorem held_key {b : Fin 10} (h : b.val < 6) :
    s.held b = decide (s.xpadButtonHistory (Fin.castSucc ⟨b, h⟩) = 1) := dif_pos h

theorem held_pad {b : Fin 10} (h : ¬ b.val < 6) :
    s.held b = decide (s.xpadButtonHistory 6 &&& buttonmask (UInt8.ofNat b) ≠ 0) := dif_neg h

theorem remember_self (s : Controls) (i : Fin 7) (value : UInt8) : (s.remember i value).xpadButtonHistory i = value :=
  Function.update_self ..

theorem remember_ne (s : Controls) {i j : Fin 7} (value : UInt8) (h : j ≠ i) :
    (s.remember i value).xpadButtonHistory j = s.xpadButtonHistory j := Function.update_of_ne h ..

theorem castSucc_ne_six (i : Fin 6) : i.castSucc ≠ (6 : Fin 7) := (Fin.castSucc_lt_last i).ne

/-- A store to the history byte of an analog button. -/
theorem Polls.storeKey (hready : s.Ready) {b : Fin 10} (h : b.val < 6) {r : Int} {value : UInt8}
    (hvalue : value = 0 ∨ value = 1) (hreport : r = report (s.held b) (s.level b))
    (hnext : decide (value = 1) = next (s.held b) (s.level b)) :
    Polls s b (r, s.remember (Fin.castSucc ⟨b, h⟩) value) where
  result := hreport
  ready := by
    refine ⟨hready.noKey, fun i => ?_⟩
    dsimp only
    by_cases hi : i.castSucc = Fin.castSucc ⟨b, h⟩
    · rw [hi, remember_self]
      exact hvalue
    · rw [remember_ne _ _ hi]
      exact hready.history i
  keys := rfl
  pad := rfl
  own := by
    dsimp only
    rw [held_key h, remember_self]
    exact hnext
  others := by
    intro c hc
    dsimp only
    by_cases hkey : c.val < 6
    · have hindex : Fin.castSucc ⟨c.val, hkey⟩ ≠ Fin.castSucc ⟨b.val, h⟩ := by
        intro heq
        exact hc (Fin.ext (Fin.mk.inj (Fin.castSucc_injective 6 heq)))
      rw [held_key hkey, held_key hkey, remember_ne _ _ hindex]
    · rw [held_pad hkey, held_pad hkey, remember_ne _ _ (castSucc_ne_six _).symm]

theorem pollKey_polls (hready : s.Ready) {b : Fin 10} (h : b.val < 6) : Polls s b (pollKey s ⟨b, h⟩) := by
  have hlevel : s.level b =
      if s.keys ⟨b, h⟩ > 0x30 then .pressed else if s.keys ⟨b, h⟩ = 0 then .released else .between := dif_pos h
  have hheld := held_key (s := s) h
  have hbyte := hready.history ⟨b, h⟩
  rw [pollKey]
  split
  case isTrue hrise =>
    rw [if_pos hrise.1] at hlevel
    rw [hrise.2, decide_eq_false (by decide)] at hheld
    refine Polls.storeKey hready h (Or.inr rfl) ?_ ?_
    · rw [hlevel, hheld]
      rfl
    · rw [hlevel]
      rfl
  case isFalse hrise =>
  split
  case isTrue hfall =>
    rw [hfall.1, if_neg (by decide), if_pos rfl] at hlevel
    rw [hfall.2, decide_eq_true rfl] at hheld
    refine Polls.storeKey hready h (Or.inl rfl) ?_ ?_
    · rw [hlevel, hheld]
      rfl
    · rw [hlevel]
      rfl
  case isFalse hfall =>
    rcases hbyte with hzero | hone
    · rw [hzero, decide_eq_false (by decide)] at hheld
      have hlow : ¬ s.keys ⟨b, h⟩ > 0x30 := fun hpressed => hrise ⟨hpressed, hzero⟩
      rw [if_neg hlow] at hlevel
      refine Polls.nothing hready ?_ ?_
      · rw [hlevel, hheld]
        split
        · rfl
        · rfl
      · rw [hlevel, hheld]
        split
        · rfl
        · rfl
    · rw [hone, decide_eq_true rfl] at hheld
      have hheld' : s.keys ⟨b, h⟩ ≠ 0 := fun hreleased => hfall ⟨hreleased, hone⟩
      rw [if_neg hheld'] at hlevel
      refine Polls.nothing hready ?_ ?_
      · rw [hlevel, hheld]
        split
        · rfl
        · rfl
      · rw [hlevel, hheld]
        split
        · rfl
        · rfl

/-- A flip of a bit of the byte for the pad. -/
theorem Polls.flipPad (hready : s.Ready) {b : Fin 10} (h : ¬ b.val < 6) {r : Int}
    (hreport : r = report (s.held b) (s.level b)) (hnext : (!s.held b) = next (s.held b) (s.level b)) :
    Polls s b (r, s.remember 6 (s.xpadButtonHistory 6 ^^^ buttonmask (UInt8.ofNat b))) where
  result := hreport
  ready := by
    refine ⟨hready.noKey, fun i => ?_⟩
    dsimp only
    rw [remember_ne _ _ (castSucc_ne_six i)]
    exact hready.history i
  keys := rfl
  pad := rfl
  own := by
    dsimp only
    have hmask := buttonmask_mem (UInt8.ofNat b)
    have hne : buttonmask (UInt8.ofNat b) ≠ 0 := by
      intro hzero
      rw [hzero] at hmask
      exact absurd hmask (by decide)
    rw [← hnext, held_pad h, held_pad h, remember_self, flip_and, UInt8.and_self]
    rcases and_mask hmask (s.xpadButtonHistory 6) with hzero | hset
    · rw [hzero, UInt8.zero_xor, decide_eq_true hne, decide_eq_false (not_not_intro rfl), Bool.not_false]
    · rw [hset, UInt8.xor_self, decide_eq_true hne, decide_eq_false (not_not_intro rfl), Bool.not_true]
  others := by
    intro c hc
    dsimp only
    by_cases hkey : c.val < 6
    · rw [held_key hkey, held_key hkey, remember_ne _ _ (castSucc_ne_six _)]
    · rw [held_pad hkey, held_pad hkey, remember_self, flip_and, buttonmask_ne h hkey hc.symm, UInt8.xor_zero]

theorem pollPad_polls (hready : s.Ready) {b : Fin 10} (h : ¬ b.val < 6) :
    Polls s b (pollPad s (buttonmask (UInt8.ofNat b))) := by
  have hlevel : s.level b = if s.pad &&& buttonmask (UInt8.ofNat b) ≠ 0 then .pressed else .released := dif_neg h
  have hheld := held_pad (s := s) h
  rw [pollPad]
  split
  case isTrue hrise =>
    rw [if_pos hrise.1] at hlevel
    rw [hrise.2, decide_eq_false (not_not_intro rfl)] at hheld
    refine Polls.flipPad hready h ?_ ?_
    · rw [hlevel, hheld]
      rfl
    · rw [hlevel, hheld]
      rfl
  case isFalse hrise =>
  split
  case isTrue hfall =>
    rw [if_neg (not_not_intro hfall.1)] at hlevel
    rw [decide_eq_true hfall.2] at hheld
    refine Polls.flipPad hready h ?_ ?_
    · rw [hlevel, hheld]
      rfl
    · rw [hlevel, hheld]
      rfl
  case isFalse hfall =>
    by_cases hpad : s.pad &&& buttonmask (UInt8.ofNat b) = 0
    · have hzero : s.xpadButtonHistory 6 &&& buttonmask (UInt8.ofNat b) = 0 := by
        by_contra hset
        exact hfall ⟨hpad, hset⟩
      rw [if_neg (not_not_intro hpad)] at hlevel
      rw [hzero, decide_eq_false (not_not_intro rfl)] at hheld
      refine Polls.nothing hready ?_ ?_
      · rw [hlevel, hheld]
        rfl
      · rw [hlevel, hheld]
        rfl
    · have hset : s.xpadButtonHistory 6 &&& buttonmask (UInt8.ofNat b) ≠ 0 := fun hzero => hrise ⟨hpad, hzero⟩
      rw [if_pos hpad] at hlevel
      rw [decide_eq_true hset] at hheld
      refine Polls.nothing hready ?_ ?_
      · rw [hlevel, hheld]
        rfl
      · rw [hlevel, hheld]
        rfl

theorem remoteKey_ne_zero (selectedButton : UInt8) : remoteKey selectedButton ≠ some 0 := by
  rw [remoteKey]
  split_ifs
  · decide
  · decide
  · decide
  · decide
  · decide
  · decide
  · decide

/-- Every poll. -/
theorem poll_polls (hready : s.Ready) (b : Fin 10) : Polls s b (s.poll b) := by
  have hvalue : (UInt8.ofNat b).toNat = b.val := UInt8.toNat_ofNat_of_lt' (Nat.lt_trans b.isLt (by decide))
  obtain ⟨hkeyboard, hremote⟩ := hready.noKey
  rw [Controls.poll, risefallXpadBUTTON, if_neg fun h => h.1 hkeyboard,
    if_neg fun h => remoteKey_ne_zero _ (hremote ▸ h.2)]
  by_cases h : b.val < 6
  · rw [dif_pos (hvalue.symm ▸ h)]
    simp only [hvalue]
    exact pollKey_polls hready h
  · rw [dif_neg (hvalue.symm ▸ h), if_pos (by omega)]
    exact pollPad_polls hready h

end Poll

/-! ### Runs of polls -/

theorem xpadIrq_ready {s : Controls} (h : s.Ready) (num : Int) (data : Fin 32 → UInt8) : (xpadIrq s num data).Ready := by
  rw [xpadIrq]
  split
  · exact h
  · exact ⟨h.noKey, h.history⟩

theorem xpadIrq_held (s : Controls) (num : Int) (data : Fin 32 → UInt8) (b : Fin 10) :
    (xpadIrq s num data).held b = s.held b := by
  rw [xpadIrq]
  split
  · rfl
  · rfl

theorem step_ready {s : Controls} (h : s.Ready) (input : Input) : (s.step input).Ready := by
  cases input with
  | irq num data => exact xpadIrq_ready h num data
  | poll button => exact (poll_polls h button).ready

theorem run_ready {s : Controls} (h : s.Ready) (inputs : List Input) : (s.run inputs).Ready := by
  induction inputs generalizing s with
  | nil => exact h
  | cons input inputs ih => exact ih (step_ready h input)

/-- How a button stands depends on the packets only. -/
theorem levels_congr {s s' : Controls} (hkeys : s.keys = s'.keys) (hpad : s.pad = s'.pad) (b : Fin 10)
    (inputs : List Input) : Controls.levels b s inputs = Controls.levels b s' inputs := by
  induction inputs generalizing s s' with
  | nil => rfl
  | cons input inputs ih =>
      cases input with
      | irq num data =>
          apply ih
          · rw [xpadIrq, xpadIrq]
            split
            · exact hkeys
            · rfl
          · rw [xpadIrq, xpadIrq]
            split
            · exact hpad
            · rfl
      | poll button =>
          have hlevel : s.level b = s'.level b := by rw [Controls.level, Controls.level, hkeys, hpad]
          rw [Controls.levels, Controls.levels, hlevel, ih hkeys hpad]

/-- What the polls of a button return is what its detector reports. -/
theorem results_eq {s : Controls} (h : s.Ready) (b : Fin 10) (inputs : List Input) :
    Controls.results b s inputs = reports (s.held b) (Controls.levels b s inputs) := by
  induction inputs generalizing s with
  | nil => rfl
  | cons input inputs ih =>
      cases input with
      | irq num data =>
          rw [Controls.results, Controls.levels, ih (xpadIrq_ready h num data), xpadIrq_held]
      | poll button =>
          have hpoll := poll_polls h button
          have hlevels := levels_congr hpoll.keys hpoll.pad b inputs
          rw [Controls.results, Controls.levels, ih hpoll.ready, hlevels]
          by_cases hb : button = b
          · subst hb
            rw [if_pos rfl, if_pos rfl, reports, hpoll.result, hpoll.own]
          · rw [if_neg hb, if_neg hb, hpoll.others b (Ne.symm hb)]

/-- Whether an input is a packet or a poll of a button. -/
def Input.concerns (b : Fin 10) : Input → Bool
  | .irq _ _ => true
  | .poll button => decide (button = b)

theorem levels_filter (b : Fin 10) (s : Controls) (inputs : List Input) :
    Controls.levels b s (inputs.filter (Input.concerns b)) = Controls.levels b s inputs := by
  induction inputs generalizing s with
  | nil => rfl
  | cons input inputs ih =>
      cases input with
      | irq num data =>
          exact ih (xpadIrq s num data)
      | poll button =>
          rw [List.filter_cons, Controls.levels, Input.concerns]
          by_cases hb : button = b
          · rw [if_pos (decide_eq_true hb), if_pos hb, Controls.levels, if_pos hb, ih]
          · rw [if_neg (by rw [decide_eq_true_eq]; exact hb), if_neg hb, ih]

theorem Controls.Cleared.ready {s : Controls} (h : s.Cleared) (hkey : s.NoKeyPending) : s.Ready :=
  ⟨hkey, fun i => Or.inl (h i.castSucc)⟩

theorem Controls.Cleared.held {s : Controls} (h : s.Cleared) (b : Fin 10) : s.held b = false := by
  by_cases hkey : b.val < 6
  · rw [held_key hkey, h]
    rfl
  · rw [held_pad hkey, h, UInt8.zero_and]
    rfl

/-- From a cleared history and with no key pending, for every button and every sequence of packets and polls: its polls
    return what a detector reports that is shown how the button stands at each of them; its edges alternate, from a
    press on; while no poll of it finds it released a press is reported at most once; and the polls of other buttons may
    be left out. -/
theorem risefall_edges {s : Controls} (hkey : s.NoKeyPending) (hclear : s.Cleared) (b : Fin 10) (inputs : List Input) :
    Controls.results b s inputs = reports false (Controls.levels b s inputs) ∧
    Alternate 1 (edges (Controls.results b s inputs)) ∧
    (∀ before during after, inputs = before ++ during ++ after →
      Level.released ∉ Controls.levels b (s.run before) during →
      (Controls.results b (s.run before) during).count 1 ≤ 1) ∧
    Controls.results b s (inputs.filter (Input.concerns b)) = Controls.results b s inputs := by
  have hready := hclear.ready hkey
  have hheld := hclear.held b
  have hreports : Controls.results b s inputs = reports false (Controls.levels b s inputs) := by
    rw [results_eq hready, hheld]
  refine ⟨hreports, ?_, fun before during after _ hreleased => ?_, ?_⟩
  · rw [hreports]
    exact reports_alternate false _
  · rw [results_eq (run_ready hready before)]
    have honce := reports_press_once ((s.run before).held b) hreleased
    split at honce
    · exact Nat.le_trans honce (Nat.zero_le 1)
    · exact honce
  · rw [results_eq hready, results_eq hready, levels_filter]

/-- The controls after `XPADInit`. -/
def xpadInit : Controls :=
  { currentKeyboardKey := 0, currentRemoteKey := 0, remotekeyIsRepeat := 0, keys := fun _ => 0, pad := 0
    xpadButtonHistory := fun _ => 0 }

/-- A is pressed fully, halfway, and fully again, then let go halfway and wholly, while UP is pressed and let go; every
    packet is followed by polls. -/
def padPresses : List Input :=
  [.irq 0 fun i => if i = 2 then 1 else if i = 4 then 0xFF else 0, .poll 0, .poll 6, .poll 0,
    .irq 0 fun i => if i = 2 then 1 else if i = 4 then 0x30 else 0, .poll 0, .poll 7, .poll 6,
    .irq 0 fun i => if i = 4 then 0xFF else 0, .poll 0, .poll 6,
    .irq 0 fun i => if i = 4 then 0x20 else 0, .poll 0,
    .irq 0 fun _ => 0, .poll 0, .poll 6]

/-- A press of A is reported once through the zone between its thresholds, and so is its release; UP on its own. -/
theorem risefall_edges_pad :
    reports false (Controls.levels 0 xpadInit padPresses) = [1, 0, 0, 0, 0, -1] ∧
      Controls.results 0 xpadInit padPresses = reports false (Controls.levels 0 xpadInit padPresses) ∧
      Controls.results 6 xpadInit padPresses = reports false (Controls.levels 6 xpadInit padPresses) ∧
      (Controls.results 0 (xpadInit.run (padPresses.take 1)) ((padPresses.drop 1).take 12)).count 1 ≤ 1 := by
  obtain ⟨hresults, -, honce, -⟩ := risefall_edges (s := xpadInit) ⟨rfl, rfl⟩ (fun _ => rfl) 0 padPresses
  obtain ⟨hup, -, -, -⟩ := risefall_edges (s := xpadInit) ⟨rfl, rfl⟩ (fun _ => rfl) 6 padPresses
  exact ⟨by decide +kernel, hresults, hup, honce (padPresses.take 1) ((padPresses.drop 1).take 12)
    (padPresses.drop 13) rfl (by decide +kernel)⟩

end Cromwell.Usb
