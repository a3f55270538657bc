/-
Module: Cromwell.BootLibrary
Layer: Model
Purpose: The memory and string routines that the boot code is written with, instruction by instruction where the result
  depends on it: `memcpy` moves upwards in double words and so is a copy only when it does not reach over
  its destination from below. The boot loader and the system have the same text of it.
Imports: Cromwell.Lib.Buffer
Trusted boundary: reviewed against src/lib/misc/BootLibrary.c and src/boot_rom/2bBootLibrary.c
Main exports: memcpy, memcpy_eq, memcmp, memcmp_eq_zero, cString, strncmp, strrchr0
-/
import Cromwell.Lib.Buffer

namespace Cromwell.BootLibrary

open ByteMemory

/-- `rep movsl`. -/
def repMovsl : Nat → Mem → Nat → Nat → Mem
  | 0, m, _, _ => m
  | count + 1, m, dest, src => repMovsl count (m.copy dest src 4) (dest + 4) (src + 4)

/-- `memcpy`: double words upwards, then a word and a byte as needed. -/
def memcpy (m : Mem) (dest src n : Nat) : Mem :=
  let done := n / 4 * 4
  let m := repMovsl (n / 4) m dest src
  let (m, done) :=
    if n / 2 % 2 = 1 then (m.copy (dest + done) (src + done) 2, done + 2) else (m, done)
  if n % 2 = 1 then m.copy (dest + done) (src + done) 1 else m

theorem repMovsl_eq (m : Mem) (dest src : Nat) : ∀ (count p : Nat),
    dest ≤ src ∨ src + p + count * 4 ≤ dest →
    repMovsl count (m.copy dest src p) (dest + p) (src + p) = m.copy dest src (p + count * 4)
  | 0, p, _ => by simp [repMovsl]
  | count + 1, p, h => by
      have hstep : (m.copy dest src p).copy (dest + p) (src + p) 4 = m.copy dest src (p + 4) :=
        Mem.copy_copy m (by omega)
      rw [repMovsl, hstep, Nat.add_assoc, Nat.add_assoc, repMovsl_eq m dest src count (p + 4) (by omega)]
      congr 1
      omega

/-- `memcpy` copies, unless it reaches over its destination from below. -/
theorem memcpy_eq (m : Mem) {dest src n : Nat} (h : dest ≤ src ∨ src + n ≤ dest) :
    memcpy m dest src n = m.copy dest src n := by
  have hzero : m.copy dest src 0 = m := by
    funext x
    simp only [Mem.copy]
    rw [if_neg (by omega)]
  have hlong := repMovsl_eq m dest src (n / 4) 0 (by omega)
  rw [hzero] at hlong
  simp only [Nat.add_zero, Nat.zero_add] at hlong
  simp only [memcpy, hlong]
  by_cases h2 : n / 2 % 2 = 1
  · have hword : (m.copy dest src (n / 4 * 4)).copy (dest + n / 4 * 4) (src + n / 4 * 4) 2 =
        m.copy dest src (n / 4 * 4 + 2) := Mem.copy_copy m (by omega)
    simp only [if_pos h2, hword]
    by_cases h1 : n % 2 = 1
    · rw [if_pos h1, Mem.copy_copy m (by omega)]
      congr 1
      omega
    · rw [if_neg h1]
      congr 1
      omega
  · simp only [if_neg h2]
    by_cases h1 : n % 2 = 1
    · rw [if_pos h1, Mem.copy_copy m (by omega)]
      congr 1
      omega
    · rw [if_neg h1]
      congr 1
      omega

/-- The loop of `memcmp` with `count` bytes to go, from the byte `i` on. -/
def memcmpLoop (cs ct : Nat → UInt8) : Nat → Nat → Int
  | 0, _ => 0
  | count + 1, i =>
      let res : Int := (cs i).toNat - (ct i).toNat
      if res ≠ 0 then res else memcmpLoop cs ct count (i + 1)

/-- `memcmp`. -/
def memcmp (cs ct : Nat → UInt8) (count : Nat) : Int := memcmpLoop cs ct count 0

theorem memcmpLoop_eq_zero (cs ct : Nat → UInt8) (count i : Nat) :
    memcmpLoop cs ct count i = 0 ↔ ∀ j < count, cs (i + j) = ct (i + j) := by
  induction count generalizing i with
  | zero =>
      simp [memcmpLoop]
  | succ count ih =>
      have hbyte : ((cs i).toNat : Int) - (ct i).toNat = 0 ↔ cs i = ct i := by
        rw [← UInt8.toNat_inj]
        omega
      unfold memcmpLoop
      by_cases hne : ((cs i).toNat : Int) - (ct i).toNat ≠ 0
      · simp only [if_pos hne]
        exact ⟨fun h => absurd h hne, fun h => absurd (hbyte.mpr (h 0 (Nat.succ_pos count))) hne⟩
      · simp only [if_neg hne, ih]
        refine ⟨fun h j hj => ?_, fun h j hj => ?_⟩
        · cases j with
          | zero =>
              exact hbyte.mp (not_not.mp hne)
          | succ j =>
              have := h j (by omega)
              rwa [show i + 1 + j = i + (j + 1) by omega] at this
        · rw [show i + 1 + j = i + (j + 1) by omega]
          exact h (j + 1) (by omega)

/-- `memcmp` is zero when the bytes are the same. -/
theorem memcmp_eq_zero (cs ct : Nat → UInt8) (count : Nat) :
    memcmp cs ct count = 0 ↔ Mem.bytesFrom cs 0 count = Mem.bytesFrom ct 0 count := by
  rw [memcmp, memcmpLoop_eq_zero, Mem.bytesFrom, Mem.bytesFrom, List.map_inj_left]
  simp only [List.mem_range]

/-! ### Strings

A string is the list of the bytes in front of its NUL. -/

/-- The string in a buffer with these bytes and a NUL behind them. -/
def cString (bytes : List UInt8) : List UInt8 := bytes.takeWhile (· ≠ 0)

/-- `strncmp`. -/
def strncmp : List UInt8 → List UInt8 → Nat → Int
  | _, _, 0 => 0
  | cs, ct, count + 1 =>
      if cs.headD 0 = ct.headD 0 then
        if cs.headD 0 = 0 then 0 else strncmp cs.tail ct.tail count
      else if cs.headD 0 < ct.headD 0 then -1
      else 1

theorem strncmp_cons (a b : UInt8) (cs ct : List UInt8) (count : Nat) :
    strncmp (a :: cs) (b :: ct) (count + 1) =
      if a = b then if a = 0 then 0 else strncmp cs ct count else if a < b then -1 else 1 := rfl

/-- `strrchr0`: the text in front of the first `ch` and the text behind it. -/
def strrchr0 (ch : UInt8) : List UInt8 → Option (List UInt8 × List UInt8)
  | [] => none
  | b :: string =>
      if b = ch then some ([], string)
      else (strrchr0 ch string).map fun parts => (b :: parts.1, parts.2)

theorem cString_zero_notMem (bytes : List UInt8) : 0 ∉ cString bytes := fun h => by
  simpa using List.mem_takeWhile_imp h

/-- For strings of the same length `strncmp` decides equality. -/
theorem strncmp_eq_zero {cs ct : List UInt8} (h : 0 ∉ cs) (hlen : ct.length = cs.length) :
    strncmp cs ct ct.length = 0 ↔ cs = ct := by
  induction cs generalizing ct with
  | nil =>
      rw [List.length_eq_zero_iff.mp hlen]
      simp [strncmp]
  | cons a cs ih =>
      obtain ⟨b, ct, rfl⟩ : ∃ b ct', ct = b :: ct' := List.exists_cons_of_length_eq_add_one hlen
      have hne : a ≠ 0 := fun h0 => h (h0 ▸ List.mem_cons_self)
      have hrest := ih (fun h0 => h (List.mem_cons_of_mem a h0)) (Nat.succ.inj hlen)
      rw [List.length_cons, strncmp_cons]
      by_cases hab : a = b
      · rw [if_pos hab, if_neg hne, hrest, hab]
        exact ⟨fun h => by rw [h], fun h => (List.cons.inj h).2⟩
      · rw [if_neg hab]
        refine ⟨fun h => ?_, fun h => absurd (List.cons.inj h).1 hab⟩
        split at h <;> exact absurd h (by decide)

theorem strrchr0_eq_none {ch : UInt8} {string : List UInt8} : strrchr0 ch string = none ↔ ch ∉ string := by
  induction string with
  | nil =>
      simp [strrchr0]
  | cons b string ih =>
      by_cases hb : b = ch
      · simp [strrchr0, hb]
      · rw [strrchr0, if_neg hb, Option.map_eq_none_iff, ih, List.mem_cons, not_or]
        exact ⟨fun h => ⟨Ne.symm hb, h⟩, fun h => h.2⟩

theorem strrchr0_eq_some {ch : UInt8} {string left right : List UInt8}
    (h : strrchr0 ch string = some (left, right)) : string = left ++ ch :: right ∧ ch ∉ left := by
  induction string generalizing left with
  | nil =>
      cases h
  | cons b string ih =>
      rw [strrchr0] at h
      split at h
      case isTrue hb =>
        cases h
        exact ⟨by rw [hb]; rfl, List.not_mem_nil⟩
      case isFalse hb =>
        obtain ⟨parts, hparts, heq⟩ := Option.map_eq_some_iff.mp h
        obtain ⟨rfl, rfl⟩ := Prod.mk.inj heq
        obtain ⟨hstring, hleft⟩ := ih hparts
        exact ⟨by rw [hstring]; rfl, fun hm => by
          rcases List.mem_cons.mp hm with heq | hm
          · exact hb heq.symm
          · exact hleft hm⟩

end Cromwell.BootLibrary
