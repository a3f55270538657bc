/-
Module: Cromwell.Video.FocusPll
Layer: Model and proofs
Purpose: `focus_calc_pll_settings` of `drivers/video/focus.c`: the search for a multiplier of the output clock, a divider and
  a factor that bring the pixel clock of the encoder to that of the card, and the registers that it stores them in. The
  output clock of the oscillator is a quotient in floating point; any 32-bit value stands for it.
Imports: Cromwell.Lib.Buffer
Trusted boundary: reviewed against src/drivers/video/focus.c; human-reviewed statement (Solution, PllRegisters)
Main exports: FocusPllSettings, focusCalcPllSettings, Solution, PllRegisters, focusCalcPllSettings_exact
-/
import Cromwell.Lib.Buffer

namespace Cromwell.Video

open ByteMemory

/-- `focus_pll_settings`. -/
structure FocusPllSettings where
  dotclock : Int32
  vgaHtotal : Int32
  vgaVtotal : Int32
  tvHtotal : Int32
  tvVtotal : Int32

def FocusPllSettings.ncon (settings : FocusPllSettings) : Int32 := settings.vgaHtotal * settings.vgaVtotal

def FocusPllSettings.ncod (settings : FocusPllSettings) (pllMultiplier : Nat) : Int32 :=
  settings.tvHtotal * settings.tvVtotal * Int32.ofNat pllMultiplier

/-- `(value>>8*k)&0xFF`. -/
def regByte (value : Int32) (k : Nat) : UInt8 := Mem.wordByte value.toUInt32.toNat k

/-- Got it - the pll is now correctly aligned. -/
def setPllRegisters (ncon ncod m n pllMultiplier : Int32) (regs : Mem) : Mem :=
  let regs := (((regs.store 0x10 (regByte ncon 0)).store 0x11 (regByte ncon 1)).store 0x12 (regByte ncon 2)).store 0x13
    (regByte ncon 3)
  let regs := (((regs.store 0x14 (regByte ncod 0)).store 0x15 (regByte ncod 1)).store 0x16 (regByte ncod 2)).store 0x17
    (regByte ncod 3)
  let regs := (regs.store 0x18 (regByte (m - 17) 0)).store 0x19 (regByte (m - 17) 1)
  let regs := (regs.store 0x1a (regByte (n - 1) 0)).store 0x1b (regByte (n - 1) 1)
  (regs.store 0x1c (regByte (pllMultiplier - 1) 0)).store 0x1d (regByte (pllMultiplier - 1) 0)

section Search

variable (settings : FocusPllSettings) (regs : Mem) (pllMultiplier : Nat)

/-- The tests of the inner loop. -/
def Aligned (pllInClk : Int32) (m : Nat) : Prop :=
  let pllOutClk := pllInClk * Int32.ofNat m
  pllOutClk ≥ 100000000 ∧ pllOutClk ≤ 300000000 ∧
    let outputClk := pllOutClk / Int32.ofNat pllMultiplier
    outputClk = settings.dotclock ∨ outputClk + 1 = settings.dotclock ∨ outputClk - 1 = settings.dotclock

instance (pllInClk : Int32) (m : Nat) : Decidable (Aligned settings pllMultiplier pllInClk m) :=
  inferInstanceAs (Decidable (_ ∧ _ ∧ _))

/-- `for (m=2; m<3000;++m)`: the registers when it returns 1. -/
def mLoop (pllInClk : Int32) (n : Nat) : Option Mem :=
  (List.range' 2 2998).findSome? fun m =>
    if Aligned settings pllMultiplier pllInClk m then
      some (setPllRegisters settings.ncon (settings.ncod pllMultiplier) (Int32.ofNat m) (Int32.ofNat n)
        (Int32.ofNat pllMultiplier) regs)
    else none

/-- `for (n=2; n<270;++n)`. -/
def nLoop (ncoOutClk : Int32) : Option Mem :=
  (List.range' 2 268).findSome? fun n =>
    let pllInClk := ncoOutClk / Int32.ofNat n
    if pllInClk ≥ 100000 ∧ pllInClk ≤ 1000000 then mLoop settings regs pllMultiplier pllInClk n else none

end Search

/-- `focus_calc_pll_settings`, with the output clock for each multiplier: the result and the registers. -/
def focusCalcPllSettings (ncoOutClk : Nat → Int32) (settings : FocusPllSettings) (regs : Mem) : Nat × Mem :=
  match (List.range' 4 2).findSome? fun pllMultiplier =>
      nLoop settings regs pllMultiplier (ncoOutClk pllMultiplier) with
  | some regs => (1, regs)
  | none => (0, regs)

/-! ### What it is for -/

/-- A multiplier, a divider and a factor in exact arithmetic: the input clock is between 100 kHz and 1 MHz, the one of the
    PLL between 100 MHz and 300 MHz, and the output clock is the pixel clock to within one. -/
structure Solution (ncoOutClk : Nat → Int32) (dotclock : Int32) (p n m : Nat) : Prop where
  multiplier : p = 4 ∨ p = 5
  divider : 2 ≤ n ∧ n ≤ 269
  factor : 2 ≤ m ∧ m ≤ 2999
  input : 100000 ≤ (ncoOutClk p).toInt / n ∧ (ncoOutClk p).toInt / n ≤ 1000000
  pll : 100000000 ≤ (ncoOutClk p).toInt / n * m ∧ (ncoOutClk p).toInt / n * m ≤ 300000000
  output : |(ncoOutClk p).toInt / n * m / p - dotclock.toInt| ≤ 1

/-- The registers of the PLL, decoded: two words, and three numbers with their offsets. The last one is there twice. -/
structure PllRegisters (regs : Mem) (ncon ncod : Int32) (p n m : Nat) : Prop where
  ncon : regs.loadWord 0x10 = ncon.toUInt32.toNat
  ncod : regs.loadWord 0x14 = ncod.toUInt32.toNat
  factor : (regs 0x18).toNat + 256 * (regs 0x19).toNat + 17 = m
  divider : (regs 0x1a).toNat + 256 * (regs 0x1b).toNat + 1 = n
  multiplier : (regs 0x1c).toNat + 1 = p ∧ (regs 0x1d).toNat + 1 = p

/-! ### 32-bit arithmetic -/

/-- The input clock is the exact one, as far as its range goes. -/
theorem pllInClk_range (ncoOutClk : Int32) {n : Nat} (hn : 2 ≤ n) (hn' : n ≤ 269) :
    (ncoOutClk / Int32.ofNat n ≥ 100000 ∧ ncoOutClk / Int32.ofNat n ≤ 1000000 ↔
      100000 ≤ ncoOutClk.toInt / n ∧ ncoOutClk.toInt / n ≤ 1000000) ∧
      (100000 ≤ ncoOutClk.toInt / n → (ncoOutClk / Int32.ofNat n).toInt = ncoOutClk.toInt / n) := by
  have hdivisor : (Int32.ofNat n).toInt = n := Int32.toInt_ofNat_of_lt (by omega)
  have hquotient : (ncoOutClk / Int32.ofNat n).toInt = ncoOutClk.toInt.tdiv n := by
    rw [Int32.toInt_div_of_ne_right, hdivisor]
    intro hminus
    have hcontra := congrArg Int32.toInt hminus
    rw [hdivisor] at hcontra
    change (n : Int) = -1 at hcontra
    omega
  rw [ge_iff_le, Int32.le_iff_toInt_le, Int32.le_iff_toInt_le, hquotient]
  change ((100000 : Int) ≤ _ ∧ _ ≤ (1000000 : Int) ↔ _) ∧ _
  rcases le_or_gt 0 ncoOutClk.toInt with hpos | hneg
  · rw [Int.tdiv_eq_ediv_of_nonneg hpos]
    exact ⟨Iff.rfl, fun _ => rfl⟩
  · -- Below zero both quotients are.
    have hexact : ncoOutClk.toInt / n < 0 := Int.ediv_neg_of_neg_of_pos hneg (by omega)
    have htrunc : ncoOutClk.toInt.tdiv n ≤ 0 := by
      rw [Int.tdiv_eq_ediv, Int.sign_eq_one_of_pos (by omega)]
      split <;> omega
    exact ⟨by omega, by omega⟩

/-- The products that are accepted are the exact ones: those that wrap around are negative. -/
theorem pllOutClk_range {pllInClk : Int32} (lo : 100000 ≤ pllInClk.toInt) (hi : pllInClk.toInt ≤ 1000000) {m : Nat}
    (hm : m ≤ 2999) :
    (pllInClk * Int32.ofNat m ≥ 100000000 ∧ pllInClk * Int32.ofNat m ≤ 300000000 ↔
      100000000 ≤ pllInClk.toInt * m ∧ pllInClk.toInt * m ≤ 300000000) ∧
      (pllInClk.toInt * m ≤ 300000000 → (pllInClk * Int32.ofNat m).toInt = pllInClk.toInt * m) := by
  have hnonneg : 0 ≤ pllInClk.toInt * m := Int.mul_nonneg (by omega) (by omega)
  have hbound : pllInClk.toInt * m ≤ 1000000 * 2999 := by
    apply Int.mul_le_mul hi (by omega) (by omega) (by omega)
  have hproduct : (pllInClk * Int32.ofNat m).toInt = (pllInClk.toInt * m).bmod (2 ^ 32) := by
    rw [Int32.toInt_mul, Int32.toInt_ofNat_of_lt (by omega)]
  rw [ge_iff_le, Int32.le_iff_toInt_le, Int32.le_iff_toInt_le, hproduct]
  change ((100000000 : Int) ≤ _ ∧ _ ≤ (300000000 : Int) ↔ _) ∧ _
  rcases lt_or_ge (pllInClk.toInt * m) (2 ^ 31) with hsmall | hlarge
  · rw [Int.bmod_eq_of_le (by omega) (by omega)]
    exact ⟨Iff.rfl, fun _ => rfl⟩
  · have hwrapped : (pllInClk.toInt * m).bmod (2 ^ 32) < 0 := by
      rw [Int.bmod_def]
      split <;> omega
    exact ⟨by omega, by omega⟩

/-- The three comparisons with the pixel clock. -/
theorem output_close {outputClk dotclock : Int32} (lo : 0 ≤ outputClk.toInt) (hi : outputClk.toInt ≤ 300000000) :
    (outputClk = dotclock ∨ outputClk + 1 = dotclock ∨ outputClk - 1 = dotclock) ↔
      |outputClk.toInt - dotclock.toInt| ≤ 1 := by
  have hone : (1 : Int32).toInt = 1 := rfl
  have hplus : (outputClk + 1).toInt = outputClk.toInt + 1 := by
    rw [Int32.toInt_add, hone]
    exact Int.bmod_eq_of_le (by omega) (by omega)
  have hminus : (outputClk - 1).toInt = outputClk.toInt - 1 := by
    rw [Int32.toInt_sub, hone]
    exact Int.bmod_eq_of_le (by omega) (by omega)
  rw [← Int32.toInt_inj, ← Int32.toInt_inj, ← Int32.toInt_inj, hplus, hminus, abs_le]
  omega

/-- The tests of the inner loop, in exact arithmetic. -/
theorem aligned_iff {settings : FocusPllSettings} {p : Nat} (hp : p = 4 ∨ p = 5) {pllInClk : Int32}
    (lo : 100000 ≤ pllInClk.toInt) (hi : pllInClk.toInt ≤ 1000000) {m : Nat} (hm : m ≤ 2999) :
    Aligned settings p pllInClk m ↔
      (100000000 ≤ pllInClk.toInt * m ∧ pllInClk.toInt * m ≤ 300000000) ∧
        |pllInClk.toInt * m / p - settings.dotclock.toInt| ≤ 1 := by
  obtain ⟨hrange, hexact⟩ := pllOutClk_range lo hi hm
  rw [Aligned, ← and_assoc, hrange]
  apply and_congr_right
  rintro ⟨hlo, hhi⟩
  have hdivisor : (Int32.ofNat p).toInt = p := Int32.toInt_ofNat_of_lt (by omega)
  have houtput : (pllInClk * Int32.ofNat m / Int32.ofNat p).toInt = pllInClk.toInt * m / p := by
    rw [Int32.toInt_div_of_ne_right, hdivisor, hexact hhi, Int.tdiv_eq_ediv_of_nonneg (by omega)]
    rcases hp with rfl | rfl <;> decide
  have hnonneg : 0 ≤ pllInClk.toInt * m / p := Int.ediv_nonneg (by omega) (by omega)
  have hle : pllInClk.toInt * m / p ≤ 300000000 := (Int.ediv_le_self _ (by omega)).trans hhi
  rw [output_close (by rw [houtput]; exact hnonneg) (by rw [houtput]; exact hle), houtput]

/-! ### The registers -/

/-- A value that is not negative is its own bits. -/
theorem toUInt32_toNat {value : Int32} {n : Nat} (hvalue : value.toInt = n) : value.toUInt32.toNat = n := by
  have hcond := BitVec.toInt_eq_toNat_cond value.toBitVec
  have hlt := value.toBitVec.isLt
  change value.toInt = _ at hcond
  change value.toBitVec.toNat = n
  split at hcond <;> omega

/-- A number that is stored with an offset. -/
theorem toInt_sub_offset {n k : Nat} (hk : k ≤ n) (hn : n < 2 ^ 31) {offset : Int32} (hoffset : offset.toInt = k) :
    (Int32.ofNat n - offset).toInt = (n - k : Nat) := by
  rw [Int32.toInt_sub, Int32.toInt_ofNat_of_lt hn, hoffset, Int.bmod_eq_of_le (by omega) (by omega)]
  omega

/-- Two bytes of a small number. -/
theorem regByte_pair {value : Int32} {n : Nat} (hvalue : value.toInt = n) (hn : n < 2 ^ 16) :
    (regByte value 0).toNat + 256 * (regByte value 1).toNat = n := by
  rw [regByte, regByte, toUInt32_toNat hvalue, Mem.wordByte, Mem.wordByte, UInt8.toNat_ofNat', UInt8.toNat_ofNat']
  omega

/-- One byte of a smaller one. -/
theorem regByte_single {value : Int32} {n : Nat} (hvalue : value.toInt = n) (hn : n < 2 ^ 8) :
    (regByte value 0).toNat = n := by
  rw [regByte, toUInt32_toNat hvalue, Mem.wordByte, UInt8.toNat_ofNat']
  omega

section Registers

variable (ncon ncod : Int32) (regs : Mem)

/-- The registers of an accepted triple, whose factor is never below its offset. -/
theorem setPllRegisters_decode {p n m : Nat} (hp : p = 4 ∨ p = 5) (hn : 2 ≤ n) (hn' : n ≤ 269) (hm : 17 ≤ m)
    (hm' : m ≤ 2999) :
    PllRegisters (setPllRegisters ncon ncod (Int32.ofNat m) (Int32.ofNat n) (Int32.ofNat p) regs) ncon ncod p n m := by
  have hfactor := regByte_pair (toInt_sub_offset hm (by omega) (show (17 : Int32).toInt = (17 : Nat) from rfl)) (by omega)
  have hdivider := regByte_pair (toInt_sub_offset (show 1 ≤ n by omega) (by omega)
    (show (1 : Int32).toInt = (1 : Nat) from rfl)) (by omega)
  have hmultiplier := regByte_single (toInt_sub_offset (show 1 ≤ p by omega) (by omega)
    (show (1 : Int32).toInt = (1 : Nat) from rfl)) (by omega)
  have hword : ∀ value : Int32, value.toUInt32.toNat < 2 ^ 32 := fun value => value.toUInt32.toNat_lt
  refine ⟨(Mem.loadWord_eq_iff (hword ncon)).mpr fun i hi => ?_, (Mem.loadWord_eq_iff (hword ncod)).mpr fun i hi => ?_,
    ?_, ?_, ?_⟩
  · interval_cases i <;> rfl
  · interval_cases i <;> rfl
  · change (regByte (Int32.ofNat m - 17) 0).toNat + 256 * (regByte (Int32.ofNat m - 17) 1).toNat + 17 = m
    omega
  · change (regByte (Int32.ofNat n - 1) 0).toNat + 256 * (regByte (Int32.ofNat n - 1) 1).toNat + 1 = n
    omega
  · change (regByte (Int32.ofNat p - 1) 0).toNat + 1 = p ∧ (regByte (Int32.ofNat p - 1) 0).toNat + 1 = p
    omega

/-- The other registers are left alone. -/
theorem setPllRegisters_frame (m n p : Int32) {x : Nat} (hx : ¬ (0x10 ≤ x ∧ x < 0x1e)) :
    setPllRegisters ncon ncod m n p regs x = regs x := by
  simp (disch := omega) only [setPllRegisters, Mem.store_of_ne]

end Registers

/-! ### The search -/

section Search

variable {settings : FocusPllSettings} {ncoOutClk : Nat → Int32} {regs : Mem}

/-- What the tests of all three loops say together. -/
theorem solution_iff {p n m : Nat} (hp : p = 4 ∨ p = 5) (hn : 2 ≤ n) (hn' : n ≤ 269) (hm : 2 ≤ m) (hm' : m ≤ 2999) :
    Solution ncoOutClk settings.dotclock p n m ↔
      (ncoOutClk p / Int32.ofNat n ≥ 100000 ∧ ncoOutClk p / Int32.ofNat n ≤ 1000000) ∧
        Aligned settings p (ncoOutClk p / Int32.ofNat n) m := by
  obtain ⟨hrange, hexact⟩ := pllInClk_range (ncoOutClk p) hn hn'
  rw [hrange]
  constructor
  · intro h
    have hin := hexact h.input.1
    refine ⟨h.input, (aligned_iff hp (by rw [hin]; exact h.input.1) (by rw [hin]; exact h.input.2) hm').mpr ?_⟩
    rw [hin]
    exact ⟨h.pll, h.output⟩
  · rintro ⟨hinput, haligned⟩
    have hin := hexact hinput.1
    have htests := (aligned_iff hp (by rw [hin]; exact hinput.1) (by rw [hin]; exact hinput.2) hm').mp haligned
    rw [hin] at htests
    exact ⟨hp, ⟨hn, hn'⟩, ⟨hm, hm'⟩, hinput, htests.1, htests.2⟩

/-- A factor of a solution is a hundred at least. -/
theorem Solution.factor_large {dotclock : Int32} {p n m : Nat} (h : Solution ncoOutClk dotclock p n m) : 17 ≤ m := by
  by_contra hsmall
  have hbound : (ncoOutClk p).toInt / n * m ≤ 1000000 * 16 :=
    Int.mul_le_mul h.input.2 (by omega) (by omega) (by omega)
  have hpll := h.pll.1
  omega

/-- The registers of a solution. -/
def solved (settings : FocusPllSettings) (regs : Mem) (p n m : Nat) : Mem :=
  setPllRegisters settings.ncon (settings.ncod p) (Int32.ofNat m) (Int32.ofNat n) (Int32.ofNat p) regs

theorem mLoop_eq_some {p n : Nat} {pllInClk : Int32} {regs' : Mem}
    (h : mLoop settings regs p pllInClk n = some regs') :
    ∃ m, (2 ≤ m ∧ m ≤ 2999) ∧ Aligned settings p pllInClk m ∧ regs' = solved settings regs p n m := by
  obtain ⟨m, hm, hfound⟩ := List.exists_of_findSome?_eq_some h
  rw [List.mem_range'_1] at hm
  by_cases haligned : Aligned settings p pllInClk m
  · rw [if_pos haligned] at hfound
    exact ⟨m, by omega, haligned, (Option.some.inj hfound).symm⟩
  · rw [if_neg haligned] at hfound
    exact absurd hfound (Option.some_ne_none _).symm

theorem mLoop_isSome {p m : Nat} (n : Nat) {pllInClk : Int32} (hm : 2 ≤ m ∧ m ≤ 2999)
    (h : Aligned settings p pllInClk m) : (mLoop settings regs p pllInClk n).isSome := by
  rw [mLoop, List.findSome?_isSome_iff]
  refine ⟨m, List.mem_range'_1.mpr (by omega), ?_⟩
  rw [if_pos h]
  rfl

/-- What the search finds is a solution. -/
theorem nLoop_eq_some {p : Nat} (hp : p = 4 ∨ p = 5) {regs' : Mem}
    (h : nLoop settings regs p (ncoOutClk p) = some regs') :
    ∃ n m, Solution ncoOutClk settings.dotclock p n m ∧ regs' = solved settings regs p n m := by
  obtain ⟨n, hn, hfound⟩ := List.exists_of_findSome?_eq_some h
  rw [List.mem_range'_1] at hn
  dsimp only at hfound
  by_cases hinput : ncoOutClk p / Int32.ofNat n ≥ 100000 ∧ ncoOutClk p / Int32.ofNat n ≤ 1000000
  · rw [if_pos hinput] at hfound
    obtain ⟨m, hm, haligned, hregs⟩ := mLoop_eq_some hfound
    exact ⟨n, m, (solution_iff hp hn.1 (by omega) hm.1 hm.2).mpr ⟨hinput, haligned⟩, hregs⟩
  · rw [if_neg hinput] at hfound
    exact absurd hfound (Option.some_ne_none _).symm

/-- No solution is missed. -/
theorem nLoop_isSome {p n m : Nat} (h : Solution ncoOutClk settings.dotclock p n m) :
    (nLoop settings regs p (ncoOutClk p)).isSome := by
  obtain ⟨hinput, haligned⟩ := (solution_iff h.multiplier h.divider.1 h.divider.2 h.factor.1 h.factor.2).mp h
  have hn := h.divider
  rw [nLoop, List.findSome?_isSome_iff]
  refine ⟨n, List.mem_range'_1.mpr (by omega), ?_⟩
  dsimp only
  rw [if_pos hinput]
  exact mLoop_isSome n h.factor haligned

end Search

/-- For all settings, all output clocks and all contents of the registers: the result is 1 exactly when there is a solution,
    and then the registers are those of one and the others are left alone; otherwise the result is 0 and nothing is
    changed. -/
theorem focusCalcPllSettings_exact (ncoOutClk : Nat → Int32) (settings : FocusPllSettings) (regs : Mem) :
    ((focusCalcPllSettings ncoOutClk settings regs).1 = 1 ↔
        ∃ p n m, Solution ncoOutClk settings.dotclock p n m) ∧
      ((focusCalcPllSettings ncoOutClk settings regs).1 = 1 →
        (∃ p n m, Solution ncoOutClk settings.dotclock p n m ∧
          PllRegisters (focusCalcPllSettings ncoOutClk settings regs).2 settings.ncon (settings.ncod p) p n m) ∧
        ∀ x, ¬ (0x10 ≤ x ∧ x < 0x1e) → (focusCalcPllSettings ncoOutClk settings regs).2 x = regs x) ∧
      ((focusCalcPllSettings ncoOutClk settings regs).1 ≠ 1 →
        focusCalcPllSettings ncoOutClk settings regs = (0, regs)) := by
  have hmem : ∀ p, p ∈ List.range' 4 2 ↔ p = 4 ∨ p = 5 := by
    intro p
    rw [List.mem_range'_1]
    omega
  cases hsearch : (List.range' 4 2).findSome? fun pllMultiplier =>
      nLoop settings regs pllMultiplier (ncoOutClk pllMultiplier) with
  | none =>
      have hresult : focusCalcPllSettings ncoOutClk settings regs = (0, regs) := by
        rw [focusCalcPllSettings, hsearch]
      have hno : ¬ ∃ p n m, Solution ncoOutClk settings.dotclock p n m := by
        rintro ⟨p, n, m, h⟩
        have hnone := List.findSome?_eq_none_iff.mp hsearch p ((hmem p).mpr h.multiplier)
        have hsome : (nLoop settings regs p (ncoOutClk p)).isSome := nLoop_isSome h
        rw [hnone] at hsome
        exact absurd hsome Bool.false_ne_true
      rw [hresult]
      exact ⟨iff_of_false Nat.zero_ne_one hno, fun h => absurd h Nat.zero_ne_one, fun _ => rfl⟩
  | some regs' =>
      have hresult : focusCalcPllSettings ncoOutClk settings regs = (1, regs') := by
        rw [focusCalcPllSettings, hsearch]
      obtain ⟨p, hp, hfound⟩ := List.exists_of_findSome?_eq_some hsearch
      obtain ⟨n, m, hsolution, rfl⟩ := nLoop_eq_some ((hmem p).mp hp) hfound
      have hdecode := setPllRegisters_decode settings.ncon (settings.ncod p) regs hsolution.multiplier
        hsolution.divider.1 hsolution.divider.2 hsolution.factor_large hsolution.factor.2
      rw [hresult]
      refine ⟨iff_of_true rfl ⟨p, n, m, hsolution⟩, fun _ => ⟨⟨p, n, m, hsolution, hdecode⟩, fun x hx => ?_⟩,
        fun h => absurd rfl h⟩
      exact setPllRegisters_frame settings.ncon (settings.ncod p) regs _ _ _ hx

/-- 27 MHz by 27, times 100, by 4. -/
theorem focusCalcPllSettings_reference :
    (focusCalcPllSettings (fun _ => 27000000) ⟨25000000, 1, 1, 1, 1⟩ fun _ => 0).1 = 1 := by
  apply (focusCalcPllSettings_exact _ _ _).1.mpr
  exact ⟨4, 27, 100, Or.inl rfl, by decide, by decide, by decide, by decide, by decide⟩

end Cromwell.Video
