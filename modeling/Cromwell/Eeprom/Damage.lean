/-
Module: Cromwell.Eeprom.Damage
Layer: Proofs
Purpose: `EepromCRC` notices a changed byte. The words of a lane lie four bytes apart, so that a byte of the rotated copy is
  the high byte of one word of one lane only; there the sum moves by a multiple of 256, and the byte that is kept of it
  by the difference.
Imports: Cromwell.Eeprom.Settings
Trusted boundary: human-reviewed statement (eepromCRC_detects)
Main exports: crcLoop_add, crcLoop_changed, eepromCRC_detects
-/
import Cromwell.Eeprom.Settings

namespace Cromwell.Eeprom

open ByteMemory

variable {m m' : Mem} {dataLen : Nat}

/-! ### The sum of a lane -/

/-- The sum is taken from whatever there is at the start. -/
theorem crcLoop_add (m : Mem) (dataLen fuel l : Nat) (v d : UInt16) :
    crcLoop m dataLen fuel l (v + d) = crcLoop m dataLen fuel l v + d := by
  induction fuel generalizing l v with
  | zero => rfl
  | succ fuel ih =>
      rw [crcLoop, crcLoop]
      split
      · have hstep : ∀ w : UInt16, v + d - w = v - w + d := by
          intro w
          rw [UInt16.sub_eq_add_neg, UInt16.sub_eq_add_neg, UInt16.add_assoc, UInt16.add_assoc, UInt16.add_comm d]
        rw [hstep, ih]
      · rfl

/-- The bytes in front of a lane are not in its sum. -/
theorem crcLoop_congr {l : Nat} (h : ∀ i, l ≤ i → m' i = m i) (fuel : Nat) (v : UInt16) :
    crcLoop m' dataLen fuel l v = crcLoop m dataLen fuel l v := by
  induction fuel generalizing l v with
  | zero => rfl
  | succ fuel ih =>
      rw [crcLoop, crcLoop, h l (Nat.le_refl l), h (l + 1) (Nat.le_succ l)]
      split
      · exact ih (fun i hi => h i (by omega)) _
      · rfl

/-- The lane with `k` as a high byte, when that byte alone is another one. -/
theorem crcLoop_changed {k : Nat} (hk : k < dataLen) (hsame : ∀ i, i ≠ k + 1 → m' i = m i) (fuel : Nat) {l : Nat}
    (hl : l ≤ k) (hlane : (k - l) % 4 = 0) (hfuel : k - l < 4 * fuel) (v : UInt16) :
    crcLoop m' dataLen fuel l v + 256 * (m' (k + 1)).toUInt16 =
      crcLoop m dataLen fuel l v + 256 * (m (k + 1)).toUInt16 := by
  induction fuel generalizing l v with
  | zero => omega
  | succ fuel ih =>
      rw [crcLoop, crcLoop, if_pos (by omega), if_pos (by omega)]
      by_cases hlast : l = k
      · subst hlast
        have hrest : ∀ w, crcLoop m' dataLen fuel (l + 4) w = crcLoop m dataLen fuel (l + 4) w :=
          crcLoop_congr (fun i hi => hsame i (by omega)) fuel
        have hmove : ∀ a : UInt16, v - ((m l).toUInt16 + 256 * a) + 256 * a = v - (m l).toUInt16 := by
          intro a
          rw [UInt16.sub_eq_add_neg, UInt16.neg_add, UInt16.sub_eq_add_neg, UInt16.sub_eq_add_neg, UInt16.add_assoc,
            UInt16.add_assoc, UInt16.add_left_neg, UInt16.add_zero]
        rw [hsame l (by omega), hrest, ← crcLoop_add, ← crcLoop_add, hmove, hmove]
      · rw [hsame l (by omega), hsame (l + 1) (by omega)]
        exact ih (by omega) (by omega) (by omega) _

/-! ### The byte of a lane -/

/-- What is kept of a sum. -/
theorem kept_toNat (sum : UInt16) : ((sum &&& 0xFF00) >>> 8).toUInt8.toNat = sum.toNat / 256 := by
  have hlt := sum.toNat_lt
  rw [UInt16.toNat_toUInt8, UInt16.toNat_shiftRight, UInt16.toNat_and]
  change (sum.toNat &&& 0xFF00) >>> 8 % 256 = _
  rw [Nat.shiftRight_and_distrib, show 0xFF00 >>> 8 = 2 ^ 8 - 1 from rfl, Nat.and_two_pow_sub_one_eq_mod,
    Nat.shiftRight_eq_div_pow]
  omega

/-- Sums that differ by a multiple of 256 are kept as different bytes. -/
theorem kept_ne {sum sum' : UInt16} {b b' : UInt8} (h : sum' + 256 * b'.toUInt16 = sum + 256 * b.toUInt16)
    (hb : b' ≠ b) : ((sum' &&& 0xFF00) >>> 8).toUInt8 ≠ ((sum &&& 0xFF00) >>> 8).toUInt8 := by
  intro hkept
  have hkeptNat := congrArg UInt8.toNat hkept
  rw [kept_toNat, kept_toNat] at hkeptNat
  have hNat := congrArg UInt16.toNat h
  simp only [UInt16.toNat_add, UInt16.toNat_mul, UInt8.toNat_toUInt16] at hNat
  have hlt := b.toNat_lt
  have hlt' := b'.toNat_lt
  apply hb
  apply UInt8.toNat_inj.mp
  change (sum'.toNat + 256 * b'.toNat % 2 ^ 16) % 2 ^ 16 = (sum.toNat + 256 * b.toNat % 2 ^ 16) % 2 ^ 16 at hNat
  omega

/-! ### The four bytes -/

/-- A byte of the data, but for the last one, stands one place further on in the copy. -/
theorem crcData_succ (data : Nat → UInt8) {j : Nat} (hj : j < dataLen - 1) : crcData data dataLen (j + 1) = data j := by
  rw [crcData, Mem.write_of_not_mem (by omega), Nat.add_comm]
  exact Mem.write_of_mem hj

/-- The copies of data that differ in one byte differ in one byte. -/
theorem crcData_same {data data' : Nat → UInt8} {j : Nat} (hj : j < dataLen - 1)
    (hsame : ∀ i < dataLen, i ≠ j → data' i = data i) {i : Nat} (hi : i ≠ j + 1) :
    crcData data' dataLen i = crcData data dataLen i := by
  simp only [crcData, Mem.write]
  split
  · exact hsame _ (by omega) (by omega)
  · split
    · exact hsame _ (by omega) (by omega)
    · rfl

/-- For data of any length of two and more: when one byte in front of the last one is changed, so is the checksum. -/
theorem eepromCRC_detects {data data' : Nat → UInt8} {dataLen j : Nat} (hj : j + 2 ≤ dataLen)
    (hsame : ∀ i < dataLen, i ≠ j → data' i = data i) (hdamage : data' j ≠ data j) :
    eepromCRC data' dataLen ≠ eepromCRC data dataLen := by
  intro hcrc
  -- The lane in which the byte is a high byte.
  have hlane : j % 4 < (List.range 4).length := by
    rw [List.length_range]
    exact Nat.mod_lt _ (by decide)
  have hbyte := congrArg (fun crc => crc[j % 4]?) hcrc
  simp only [eepromCRC, List.getElem?_map, List.getElem?_eq_getElem hlane, List.getElem_range, Option.map_some,
    Option.some.injEq] at hbyte
  have hsum := crcLoop_changed (show j < dataLen by omega)
    (fun i hi => crcData_same (show j < dataLen - 1 by omega) hsame hi) dataLen (Nat.mod_le j 4)
    (by omega) (by omega) 0xFFFF
  rw [crcData_succ data' (by omega), crcData_succ data (by omega)] at hsum
  exact kept_ne hsum hdamage hbyte

/-- The first of two bytes. -/
theorem eepromCRC_detects_first :
    eepromCRC (fun _ => 0) 2 ≠ eepromCRC (fun i => if i = 0 then 1 else 0) 2 :=
  eepromCRC_detects (Nat.le_refl 2) (fun i _ hi => (if_neg hi).symm) (by decide)

/-- The last byte is but a low byte of the first lane. -/
example : eepromCRC (fun _ => 0) 2 = eepromCRC (fun i => if i = 1 then 1 else 0) 2 := by decide

end Cromwell.Eeprom
