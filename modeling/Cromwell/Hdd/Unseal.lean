/-
Module: Cromwell.Hdd.Unseal
Layer: Proofs
Purpose: Unsealing the key of the hard disk inverts sealing it. A round of the search works on a fresh copy of
  the EEPROM, so the version that is returned is the least one whose confirm hash matches, and for a sealed key
  the version it was sealed with is among them. Without such a version there is no password.
Imports: Cromwell.Hdd.Hmac
Trusted boundary: unsealed, Verifies, sealKey
Main exports: unsealed, Verifies, sealKey, unsealVersion_spec, unsealLoop_spec, unseal_sealKey
-/
import Cromwell.Hdd.Hmac

namespace Cromwell.Hdd

open ByteMemory Cromwell.Crypt
open Cromwell.BootLibrary (memcmp memcmp_eq_zero)

variable (compress : Sha1Words → List UInt8 → Sha1Words)

/-- The 28 bytes behind the hash, decrypted as one stream with the key of a version. -/
def unsealed (version : Nat) (input : List UInt8) : List UInt8 :=
  (rc4Crypt (input.drop 20) (rc4PrepareKey (hmacHdd compress version (input.take 20)))).1

/-- The confirm hash of a version matches. -/
def Verifies (version : Nat) (input : List UInt8) : Prop :=
  hmacHdd compress version (unsealed compress version input) = input.take 20

/-- A key as it is sealed: its hash, and the key encrypted under a hash of the hash. -/
def sealKey (version : Nat) (confounder data : List UInt8) : List UInt8 :=
  let hash := hmacHdd compress version (confounder ++ data)
  hash ++ (rc4Crypt (confounder ++ data) (rc4PrepareKey (hmacHdd compress version hash))).1

theorem sealKey_take (version : Nat) (confounder data : List UInt8) :
    (sealKey compress version confounder data).take 20 = hmacHdd compress version (confounder ++ data) :=
  List.take_left' (hmacHdd_length compress _ _)

/-- Decryption with the version of the seal restores the key. -/
theorem unsealed_sealKey (version : Nat) (confounder data : List UInt8) :
    unsealed compress version (sealKey compress version confounder data) = confounder ++ data := by
  rw [unsealed, sealKey_take, sealKey, List.drop_left' (hmacHdd_length compress _ _)]
  exact rc4Crypt_involutive _ _

theorem verifies_sealKey (version : Nat) (confounder data : List UInt8) :
    Verifies compress version (sealKey compress version confounder data) := by
  rw [Verifies, unsealed_sealKey, sealKey_take]

/-! ### One version -/

theorem rc4CryptAt_bytes (m : Mem) (a n : Nat) (key : Rc4Key) :
    (rc4CryptAt m a n key).1.bytesFrom a n = (rc4Crypt (m.bytesFrom a n) key).1 := by
  have hlen : (rc4Crypt (m.bytesFrom a n) key).1.length = n := by rw [rc4Crypt_length, Mem.bytesFrom_length]
  rw [rc4CryptAt, Mem.bytesFrom_write_self]
  refine List.ext_getElem (by rw [List.length_map, List.length_range, hlen]) fun i hi hi' => ?_
  rw [List.getElem_map, List.getElem_range, List.getD_eq_getElem _ _ hi']

theorem rc4CryptAt_outside (m : Mem) {a n b k : Nat} (key : Rc4Key) (h : b + k ≤ a ∨ a + n ≤ b) :
    (rc4CryptAt m a n key).1.bytesFrom b k = m.bytesFrom b k := by
  rw [rc4CryptAt]
  dsimp only
  rw [Mem.bytesFrom_write m _ h]

/-- Two pieces next to each other are crypted as one. -/
theorem rc4CryptAt_pieces (m : Mem) (a n k : Nat) (key : Rc4Key) :
    (rc4CryptAt (rc4CryptAt m a n key).1 (a + n) k (rc4CryptAt m a n key).2).1.bytesFrom a (n + k) =
      (rc4Crypt (m.bytesFrom a (n + k)) key).1 := by
  rw [Mem.bytesFrom_append, Mem.bytesFrom_append, rc4Crypt_append,
    rc4CryptAt_outside _ _ (Or.inl (Nat.le_refl _)), rc4CryptAt_bytes, rc4CryptAt_bytes,
    rc4CryptAt_outside _ _ (Or.inr (Nat.le_refl _))]
  rfl

/-- What a round leaves behind. -/
structure Unsealed (version : Nat) (b b' : KeyBuffers) : Prop where
  input : b'.pbEepromData = b.pbEepromData
  result : b'.pbResult = b.pbResult
  hash : b'.baEepromDataLocalCopy.bytesFrom 0 20 = (b.pbEepromData.bytesFrom 0 48).take 20
  data : b'.baEepromDataLocalCopy.bytesFrom 20 28 = unsealed compress version (b.pbEepromData.bytesFrom 0 48)
  confirm : b'.baDataHashConfirm.bytesFrom 0 20 =
    hmacHdd compress version (unsealed compress version (b.pbEepromData.bytesFrom 0 48))

/-- The fresh copy of the EEPROM. -/
theorem localCopy_bytes (m src : Mem) {a n : Nat} (h : a + n ≤ 0x30) :
    (m.write 0 0x30 src).bytesFrom a n = src.bytesFrom a n := by
  refine Mem.bytesFrom_congr fun i hi => ?_
  have hcopy : m.write 0 0x30 src (0 + (a + i)) = src (a + i) := Mem.write_of_mem (by omega)
  rwa [Nat.zero_add] at hcopy

/-- A round does not depend on what an earlier one has left in the buffers. -/
theorem unsealVersion_spec (stack : Nat → Sha1Context) (counter : Nat) (b : KeyBuffers) :
    Unsealed compress counter b (unsealVersion compress stack counter b) := by
  -- The 48 bytes are the hash and the sealed data.
  have hinput : b.pbEepromData.bytesFrom 0 48 = b.pbEepromData.bytesFrom 0 20 ++ b.pbEepromData.bytesFrom 20 28 :=
    Mem.bytesFrom_append _ 0 20 28
  have htake : (b.pbEepromData.bytesFrom 0 48).take 20 = b.pbEepromData.bytesFrom 0 20 := by
    rw [hinput, List.take_left' (Mem.bytesFrom_length _ _ _)]
  have hdrop : (b.pbEepromData.bytesFrom 0 48).drop 20 = b.pbEepromData.bytesFrom 20 28 := by
    rw [hinput, List.drop_left' (Mem.bytesFrom_length _ _ _)]
  have hlocal : ∀ a n, a + n ≤ 0x30 →
      (keyForVersion compress (stack (2 * counter)) counter b).baEepromDataLocalCopy.bytesFrom a n =
        b.pbEepromData.bytesFrom a n := fun a n h => localCopy_bytes _ _ h
  have hkey : (keyForVersion compress (stack (2 * counter)) counter b).rc4Key =
      rc4PrepareKey (hmacHdd compress counter ((b.pbEepromData.bytesFrom 0 48).take 20)) := by
    rw [keyForVersion]
    dsimp only
    rw [hmacHddCalculation_eq compress _ _ _ _ (by simp [texts]), texts, List.flatMap_singleton]
    dsimp only
    rw [localCopy_bytes _ _ (by decide), htake]
  have hhash : (unsealVersion compress stack counter b).baEepromDataLocalCopy.bytesFrom 0 20 =
      (b.pbEepromData.bytesFrom 0 48).take 20 := by
    rw [htake, unsealVersion, confirmHash, decryptLocalCopy]
    dsimp only
    rw [rc4CryptAt_outside _ _ (Or.inl (by decide)), rc4CryptAt_outside _ _ (Or.inl (by decide)),
      hlocal 0 20 (by decide)]
  have hdata : (unsealVersion compress stack counter b).baEepromDataLocalCopy.bytesFrom 20 28 =
      unsealed compress counter (b.pbEepromData.bytesFrom 0 48) := by
    rw [unsealed, hdrop, ← hkey, unsealVersion, confirmHash, decryptLocalCopy]
    dsimp only
    rw [rc4CryptAt_pieces _ 20 8 20, ← hlocal 20 28 (by decide)]
  have hframe : (unsealVersion compress stack counter b).pbEepromData = b.pbEepromData ∧
      (unsealVersion compress stack counter b).pbResult = b.pbResult := by
    rw [unsealVersion, confirmHash, decryptLocalCopy, keyForVersion]
    exact ⟨rfl, rfl⟩
  refine ⟨hframe.1, hframe.2, hhash, hdata, ?_⟩
  rw [← hdata, unsealVersion, confirmHash]
  dsimp only
  rw [hmacHddCalculation_eq compress _ _ _ _ (by simp [texts])]
  simp only [texts, List.flatMap_cons, List.flatMap_nil, List.append_nil, Mem.bytesFrom_shift]
  rw [Mem.bytesFrom_append _ 20 8 20]

/-- The comparison of a round decides whether the version verifies. -/
theorem unsealVersion_memcmp (stack : Nat → Sha1Context) (counter : Nat) (b : KeyBuffers) :
    memcmp (unsealVersion compress stack counter b).baEepromDataLocalCopy
        (unsealVersion compress stack counter b).baDataHashConfirm 0x14 = 0 ↔
      Verifies compress counter (b.pbEepromData.bytesFrom 0 48) := by
  have hspec := unsealVersion_spec compress stack counter b
  rw [memcmp_eq_zero, hspec.hash, hspec.confirm, Verifies]
  exact eq_comm

/-! ### The search -/

/-- The search ends with the least version that verifies, or with 0, and the input is what it was. -/
structure Searched (first last : Nat) (b : KeyBuffers) (r : Nat × KeyBuffers) : Prop where
  input : r.2.pbEepromData = b.pbEepromData
  result : r.2.pbResult = b.pbResult
  none : r.1 = 0 → ∀ w, first ≤ w → w < last → ¬ Verifies compress w (b.pbEepromData.bytesFrom 0 48)
  least : r.1 ≠ 0 → first ≤ r.1 ∧ r.1 < last ∧ Verifies compress r.1 (b.pbEepromData.bytesFrom 0 48) ∧
    ∀ w, first ≤ w → w < r.1 → ¬ Verifies compress w (b.pbEepromData.bytesFrom 0 48)
  data : r.1 ≠ 0 → r.2.baEepromDataLocalCopy.bytesFrom 20 28 =
    unsealed compress r.1 (b.pbEepromData.bytesFrom 0 48)

theorem unsealLoop_spec (stack : Nat → Sha1Context) (left counter : Nat) (hpos : counter ≠ 0) (b : KeyBuffers) :
    Searched compress counter (counter + left) b (unsealLoop compress stack left counter b) := by
  induction left generalizing counter b with
  | zero =>
      exact ⟨rfl, rfl, fun _ w lo hi => absurd lo (by omega), fun h => absurd rfl h, fun h => absurd rfl h⟩
  | succ left ih =>
      have hround := unsealVersion_spec compress stack counter b
      have hcmp := unsealVersion_memcmp compress stack counter b
      have hrest := ih (counter + 1) (Nat.succ_ne_zero counter) (unsealVersion compress stack counter b)
      rw [unsealLoop]
      by_cases hzero : memcmp (unsealVersion compress stack counter b).baEepromDataLocalCopy
          (unsealVersion compress stack counter b).baDataHashConfirm 0x14 = 0
      · rw [if_pos hzero]
        exact ⟨hround.input, hround.result, fun h => absurd h hpos,
          fun _ => ⟨Nat.le_refl _, by dsimp only; omega, hcmp.mp hzero, fun w lo hi => absurd hi (by dsimp only; omega)⟩,
          fun _ => hround.data⟩
      · rw [if_neg hzero]
        have hfails : ¬ Verifies compress counter (b.pbEepromData.bytesFrom 0 48) := fun h => hzero (hcmp.mpr h)
        -- The next round starts again from the input, which this one has not touched.
        have hnext : ∀ w, counter ≤ w → counter + 1 ≤ w ∨ w = counter := fun w hw => by omega
        refine ⟨hrest.input.trans hround.input, hrest.result.trans hround.result, ?_, ?_, ?_⟩
        · intro h w lo hi
          rcases hnext w lo with hw | rfl
          · have := hrest.none h w hw (by omega)
            rwa [hround.input] at this
          · exact hfails
        · intro h
          obtain ⟨lo, hi, hverifies, hleast⟩ := hrest.least h
          rw [hround.input] at hverifies hleast
          refine ⟨by omega, by omega, hverifies, fun w hlo hlt => ?_⟩
          rcases hnext w hlo with hw | rfl
          · exact hleast w hw hlt
          · exact hfails
        · intro h
          rw [hrest.data h, hround.input]

/-! ### The result of the search -/

/-- The versions whose confirm hash matches. -/
def verifying (input : List UInt8) : Set Nat := {w | 9 ≤ w ∧ w ≤ 12 ∧ Verifies compress w input}

variable (stack : Nat → Sha1Context) (b : KeyBuffers)

theorem generate_fst :
    (bootHddKeyGenerateEepromKeyData compress stack b).1 = (unsealLoop compress stack 4 9 b).1 := by
  rw [bootHddKeyGenerateEepromKeyData]

theorem generate_input :
    (bootHddKeyGenerateEepromKeyData compress stack b).2.pbEepromData = b.pbEepromData := by
  rw [bootHddKeyGenerateEepromKeyData]
  dsimp only
  rw [(unsealLoop_spec compress stack 4 9 (by decide) b).input]

theorem generate_eq_zero :
    (bootHddKeyGenerateEepromKeyData compress stack b).1 = 0 ↔
      verifying compress (b.pbEepromData.bytesFrom 0 48) = ∅ := by
  have hloop := unsealLoop_spec compress stack 4 9 (by decide) b
  rw [generate_fst]
  constructor
  · intro h
    refine Set.eq_empty_of_forall_notMem fun w hw => ?_
    exact hloop.none h w hw.1 (Nat.lt_succ_of_le hw.2.1) hw.2.2
  · intro hnone
    by_contra hne
    obtain ⟨lo, hi, hverifies, -⟩ := hloop.least hne
    exact (Set.eq_empty_iff_forall_notMem.mp hnone) _ ⟨lo, Nat.le_of_lt_succ hi, hverifies⟩

theorem generate_isLeast (h : (verifying compress (b.pbEepromData.bytesFrom 0 48)).Nonempty) :
    IsLeast (verifying compress (b.pbEepromData.bytesFrom 0 48))
      (bootHddKeyGenerateEepromKeyData compress stack b).1 := by
  have hloop := unsealLoop_spec compress stack 4 9 (by decide) b
  have hne : (bootHddKeyGenerateEepromKeyData compress stack b).1 ≠ 0 := fun h0 =>
    h.ne_empty ((generate_eq_zero compress stack b).mp h0)
  rw [generate_fst] at hne ⊢
  obtain ⟨lo, hi, hverifies, hleast⟩ := hloop.least hne
  refine ⟨⟨lo, Nat.le_of_lt_succ hi, hverifies⟩, fun w hw => ?_⟩
  by_contra hlt
  exact hleast w hw.1 (Nat.lt_of_not_le hlt) hw.2.2

/-- The key is the first 16 bytes of the data behind the confounder. -/
theorem generate_pbResult (h : (bootHddKeyGenerateEepromKeyData compress stack b).1 ≠ 0) :
    (bootHddKeyGenerateEepromKeyData compress stack b).2.pbResult.bytesFrom 0 16 =
      ((unsealed compress (bootHddKeyGenerateEepromKeyData compress stack b).1
        (b.pbEepromData.bytesFrom 0 48)).drop 8).take 16 := by
  rw [generate_fst] at h ⊢
  have hdata := (unsealLoop_spec compress stack 4 9 (by decide) b).data h
  rw [show (28 : Nat) = 8 + (16 + 4) from rfl, Mem.bytesFrom_append, Mem.bytesFrom_append _ (20 + 8)] at hdata
  rw [bootHddKeyGenerateEepromKeyData]
  dsimp only
  rw [← hdata, List.drop_left' (Mem.bytesFrom_length _ _ _), List.take_left' (Mem.bytesFrom_length _ _ _),
    Mem.bytesFrom_write_self, Mem.bytesFrom]

/-- Nothing behind the 16 bytes is written. -/
theorem generate_pbResult_above {x : Nat} (hx : 16 ≤ x) :
    (bootHddKeyGenerateEepromKeyData compress stack b).2.pbResult x = b.pbResult x := by
  rw [bootHddKeyGenerateEepromKeyData]
  dsimp only
  rw [Mem.write_of_not_mem (by omega), (unsealLoop_spec compress stack 4 9 (by decide) b).result]

/-- The version comes from the 48 bytes alone. -/
theorem generate_congr (stack' : Nat → Sha1Context) {b' : KeyBuffers}
    (h : b'.pbEepromData.bytesFrom 0 48 = b.pbEepromData.bytesFrom 0 48) :
    (bootHddKeyGenerateEepromKeyData compress stack' b').1 =
      (bootHddKeyGenerateEepromKeyData compress stack b).1 := by
  by_cases hnone : verifying compress (b.pbEepromData.bytesFrom 0 48) = ∅
  · rw [(generate_eq_zero compress stack b).mpr hnone, (generate_eq_zero compress stack' b').mpr (by rw [h]; exact hnone)]
  · have hsome := Set.nonempty_iff_ne_empty.mpr hnone
    have hleast := generate_isLeast compress stack' b' (by rw [h]; exact hsome)
    rw [h] at hleast
    exact hleast.unique (generate_isLeast compress stack b hsome)

/-! ### The password -/

/-- The model number as `HMAC_SHA1` gets it. -/
def TsHarddiskInfo.model (info : TsHarddiskInfo) : List UInt8 := info.mSzIdentityModelNumber.toList.take info.mLength

/-- The serial number as `HMAC_SHA1` gets it. -/
def TsHarddiskInfo.serial (info : TsHarddiskInfo) : List UInt8 := info.mSzSerial.toList.take info.sLength

/-- The buffers that `CalculateDrivePassword` hands on. -/
def PasswordLocals.buffers (locals : PasswordLocals) (eeprom : Mem) : KeyBuffers :=
  ⟨locals.baEeprom.write 0 0x30 eeprom, locals.baKeyFromEeprom.fill 0 0x10 0x00, locals.baKeyHash,
    locals.baDataHashConfirm, locals.baEepromDataLocalCopy, locals.rc4Key⟩

theorem calculateDrivePassword_failed (locals : PasswordLocals) (eeprom : Mem) (info : TsHarddiskInfo) (key : Mem)
    (h : (bootHddKeyGenerateEepromKeyData compress locals.stack (locals.buffers eeprom)).1 = 0) :
    calculateDrivePassword compress locals eeprom info key = (1, key) := by
  rw [calculateDrivePassword]
  exact if_pos h

theorem calculateDrivePassword_eq (locals : PasswordLocals) (eeprom : Mem) (info : TsHarddiskInfo) (key : Mem)
    (h : (bootHddKeyGenerateEepromKeyData compress locals.stack (locals.buffers eeprom)).1 ≠ 0) :
    (calculateDrivePassword compress locals eeprom info key).1 = 0 ∧
      (calculateDrivePassword compress locals eeprom info key).2.bytesFrom 0 20 =
        hmac compress
          ((bootHddKeyGenerateEepromKeyData compress locals.stack (locals.buffers eeprom)).2.pbResult.bytesFrom 0 16)
          (info.model ++ info.serial) ∧
      ∀ x, 20 ≤ x → (calculateDrivePassword compress locals eeprom info key).2 x = key x := by
  have hmodel := info.mLength.isLt
  have hserial := info.sLength.isLt
  have hpassword := hmacSha1_eq compress locals.hmac (fun i => locals.baMagic.fill 0 0x200 0x00 (2 + i))
    (bootHddKeyGenerateEepromKeyData compress locals.stack (locals.buffers eeprom)).2.pbResult
    (show 0x10 ≤ 64 by decide) (fun i => info.mSzIdentityModelNumber.toList.getD i 0) info.mLength
    (fun i => info.mSzSerial.toList.getD i 0) info.sLength (by omega)
  rw [Mem.bytesFrom_getD (by rw [Vector.length_toList]; omega),
    Mem.bytesFrom_getD (by rw [Vector.length_toList]; omega)] at hpassword
  rw [PasswordLocals.buffers] at h hpassword ⊢
  rw [calculateDrivePassword, if_neg h]
  dsimp only
  refine ⟨rfl, ?_, fun x hx => Mem.write_of_not_mem (by omega)⟩
  -- The 20 bytes go through `baMagic` on their way to the key.
  rw [TsHarddiskInfo.model, TsHarddiskInfo.serial, ← hpassword]
  refine (Mem.bytesFrom_write_self _ _ _ _).trans (List.map_congr_left fun i hi => ?_)
  rw [Mem.write_of_mem (List.mem_range.mp hi), Nat.zero_add]

/-! ### Unsealing inverts sealing -/

/-- The search on a sealed key ends at or before the version of the seal, and there with its data. On any input
    it fails when no version verifies, leaves the input alone, and decides whether there is a password. -/
theorem unseal_sealKey (stack : Nat → Sha1Context) (b : KeyBuffers) :
    (∀ (v : Nat) (confounder : Vector UInt8 8) (data : Vector UInt8 20), 9 ≤ v → v ≤ 12 →
      b.pbEepromData.bytesFrom 0 48 = sealKey compress v confounder.toList data.toList →
      IsLeast (verifying compress (b.pbEepromData.bytesFrom 0 48))
          (bootHddKeyGenerateEepromKeyData compress stack b).1 ∧
        (bootHddKeyGenerateEepromKeyData compress stack b).1 ≤ v ∧
        ((bootHddKeyGenerateEepromKeyData compress stack b).1 = v →
          (bootHddKeyGenerateEepromKeyData compress stack b).2.pbResult.bytesFrom 0 16 = data.toList.take 16)) ∧
    ((bootHddKeyGenerateEepromKeyData compress stack b).1 = 0 ↔
      ∀ w, 9 ≤ w → w ≤ 12 → ¬ Verifies compress w (b.pbEepromData.bytesFrom 0 48)) ∧
    (bootHddKeyGenerateEepromKeyData compress stack b).2.pbEepromData = b.pbEepromData ∧
    (∀ x, 16 ≤ x → (bootHddKeyGenerateEepromKeyData compress stack b).2.pbResult x = b.pbResult x) ∧
    ∀ (locals : PasswordLocals) (eeprom : Mem) (info : TsHarddiskInfo) (key : Mem),
      eeprom.bytesFrom 0 48 = b.pbEepromData.bytesFrom 0 48 →
      ((bootHddKeyGenerateEepromKeyData compress stack b).1 = 0 →
        calculateDrivePassword compress locals eeprom info key = (1, key)) ∧
      ((bootHddKeyGenerateEepromKeyData compress stack b).1 ≠ 0 →
        (calculateDrivePassword compress locals eeprom info key).1 = 0 ∧
        (calculateDrivePassword compress locals eeprom info key).2.bytesFrom 0 20 =
          hmac compress ((bootHddKeyGenerateEepromKeyData compress stack b).2.pbResult.bytesFrom 0 16)
            (info.model ++ info.serial) ∧
        ∀ x, 20 ≤ x → (calculateDrivePassword compress locals eeprom info key).2 x = key x) := by
  refine ⟨?_, ?_, generate_input compress stack b, fun x hx => generate_pbResult_above compress stack b hx, ?_⟩
  · intro v confounder data lo hi hsealed
    have hmem : v ∈ verifying compress (b.pbEepromData.bytesFrom 0 48) :=
      ⟨lo, hi, hsealed ▸ verifies_sealKey compress v confounder.toList data.toList⟩
    have hleast := generate_isLeast compress stack b ⟨v, hmem⟩
    refine ⟨hleast, hleast.2 hmem, fun hsame => ?_⟩
    rw [generate_pbResult compress stack b (by omega), hsame, hsealed, unsealed_sealKey,
      List.drop_left' (Vector.length_toList)]
  · rw [generate_eq_zero, Set.eq_empty_iff_forall_notMem]
    exact ⟨fun h w lo hi hw => h w ⟨lo, hi, hw⟩, fun h w hw => h w hw.1 hw.2.1 hw.2.2⟩
  · intro locals eeprom info key heeprom
    have hbytes : (locals.buffers eeprom).pbEepromData.bytesFrom 0 48 = b.pbEepromData.bytesFrom 0 48 :=
      (localCopy_bytes _ _ (by decide)).trans heeprom
    have hversion := generate_congr compress stack b locals.stack hbytes
    refine ⟨fun h => calculateDrivePassword_failed compress _ _ _ _ (hversion.trans h), fun h => ?_⟩
    have hpassword := calculateDrivePassword_eq compress locals eeprom info key (by rw [hversion]; exact h)
    rw [generate_pbResult compress _ _ (by rw [hversion]; exact h), hversion, hbytes,
      ← generate_pbResult compress stack b h] at hpassword
    exact hpassword

/-- A key sealed for the first version is unsealed. -/
theorem unseal_sealKey_nine :
    let data := Vector.replicate 20 (0x5A : UInt8)
    let input := sealKey sha1Compress 9 (Vector.replicate 8 0).toList data.toList
    let b : KeyBuffers := ⟨fun i => input.getD i 0, fun _ => 0, fun _ => 0, fun _ => 0, fun _ => 0,
      ⟨fun _ => 0, 0, 0⟩⟩
    let stack : Nat → Sha1Context := fun _ => ⟨sha1Words, 0, 0, 0, fun _ => 0, false, 0⟩
    (bootHddKeyGenerateEepromKeyData sha1Compress stack b).1 = 9 ∧
      (bootHddKeyGenerateEepromKeyData sha1Compress stack b).2.pbResult.bytesFrom 0 16 =
        List.replicate 16 0x5A := by
  intro data input b stack
  have hlen : input.length = 48 := by
    simp only [input, sealKey, List.length_append, hmacHdd_length, rc4Crypt_length, Vector.length_toList]
  have hbytes : b.pbEepromData.bytesFrom 0 48 = input := by
    rw [Mem.bytesFrom_getD hlen.ge, ← hlen, List.take_length]
  obtain ⟨hleast, hle, hdata⟩ := (unseal_sealKey sha1Compress stack b).1 9 (Vector.replicate 8 0) data
    (by decide) (by decide) hbytes
  have hnine := Nat.le_antisymm hle hleast.1.1
  exact ⟨hnine, hdata hnine⟩

end Cromwell.Hdd
