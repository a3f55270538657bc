/-
Module: Cromwell.Hdd.Hmac
Layer: Proofs
Purpose: What the keyed hashes compute. `HMAC_SHA1` is the construction of RFC 2104 over the two texts one after
  the other. `HMAC_hdd_calculation` is the same construction with both pads already absorbed, over its buffers
  one after the other. Neither depends on what lies on the stack.
Imports: Cromwell.Hdd.Key, Cromwell.Crypt.Sha1Digest
Trusted boundary: hmacHdd, hmac
Main exports: hmacHdd, hmac, hmacHddCalculation_eq, hmacSha1_eq
-/
import Cromwell.Hdd.Key
import Cromwell.Crypt.Sha1Digest

namespace Cromwell.Hdd

open ByteMemory Cromwell.Crypt
open BlockHash (absorb absorb_append)

variable (compress : Sha1Words → List UInt8 → Sha1Words)

/-- The keyed hash of a version: 64 bytes of each pad are behind the words it starts from. -/
def hmacHdd (version : Nat) (message : List UInt8) : List UInt8 :=
  sha1From compress (hmac2hddWords version) 64 (sha1From compress (hmac1hddWords version) 64 message)

/-- HMAC of RFC 2104 with SHA-1. -/
def hmac (key message : List UInt8) : List UInt8 :=
  let key0 := key ++ List.replicate (64 - key.length) 0
  sha1 compress (key0.map (· ^^^ 0x5C) ++ sha1 compress (key0.map (· ^^^ 0x36) ++ message))

theorem sha1From_length (h : Sha1Words) (before : Nat) (message : List UInt8) :
    (sha1From compress h before message).length = 20 := by
  simp [sha1From, Sha1Words.digest]

theorem hmacHdd_length (version : Nat) (message : List UInt8) : (hmacHdd compress version message).length = 20 :=
  sha1From_length compress _ _ _

/-! ### `HMAC_hdd_calculation` -/

theorem hmacHddReset_absorbing (words : Sha1Words) (context : Sha1Context) :
    Absorbing (hmacHddReset words context) (words, []) 64 :=
  ⟨⟨rfl, rfl, rfl⟩, Nat.zero_lt_succ _, rfl, rfl, rfl⟩

theorem sha1Reset_absorbing (context : Sha1Context) : Absorbing (sha1Reset context) (sha1Words, []) 0 :=
  ⟨⟨rfl, rfl, rfl⟩, Nat.zero_lt_succ _, rfl, rfl, rfl⟩

/-- The bytes of the buffers, one after the other. -/
def texts (args : List (Mem × Nat)) : List UInt8 := args.flatMap fun arg => arg.1.bytesFrom 0 arg.2

theorem hmacHddInput_absorbing (args : List (Mem × Nat)) {context : Sha1Context} {s : Sha1Words × List UInt8}
    {n : Nat} (hc : Absorbing context s n) (hn : 8 * (n + (texts args).length) < 2 ^ 64) :
    Absorbing (hmacHddInput compress args context) (absorb compress 64 s (texts args))
      (n + (texts args).length) := by
  induction args generalizing context s n with
  | nil =>
      exact hc
  | cons arg args ih =>
      obtain ⟨buffer, length⟩ := arg
      have htexts : texts ((buffer, length) :: args) = buffer.bytesFrom 0 length ++ texts args := List.flatMap_cons
      rw [htexts, List.length_append, Mem.bytesFrom_length] at hn ⊢
      rw [absorb_append, ← Nat.add_assoc]
      exact ih (sha1Input_absorbing compress buffer length hc (by omega)) (by omega)

/-- The digest of pieces is the digest of their bytes. -/
theorem sha1Result_texts (args : List (Mem × Nat)) {context : Sha1Context} {h : Sha1Words} {before : Nat}
    (hc : Absorbing context (h, []) before) (hb : before % 64 = 0)
    (hn : 8 * (before + (texts args).length) < 2 ^ 64) (m : Mem) (a : Nat) :
    (storeDigest (sha1Result compress (hmacHddInput compress args context)).2 m a).bytesFrom a 20 =
      sha1From compress h before (texts args) :=
  sha1Result_eq compress hb (hmacHddInput_absorbing compress args hc hn) m a

/-- The second hash of `HMAC_hdd_calculation` over the 20 bytes that the block holds. -/
theorem hmac2hdd_own (version : Nat) (context : Sha1Context) (hmacResult : Mem) :
    (storeDigest (sha1Result compress
        (sha1Input compress (hmac2hddReset version context) (fun c => c.messageBlock) 0x14).1).2
      hmacResult 0).bytesFrom 0 20 =
      sha1From compress (hmac2hddWords version) 64 (context.messageBlock.bytesFrom 0 0x14) := by
  rw [sha1Input_own compress _ rfl (by decide)]
  have hdigest := sha1Result_texts compress [(context.messageBlock, 0x14)]
    (hmacHddReset_absorbing (hmac2hddWords version) context) (by decide) (by simp [texts]) hmacResult 0
  rwa [texts, List.flatMap_singleton] at hdigest

/-- `HMAC_hdd_calculation` is the keyed hash of everything it is given. -/
theorem hmacHddCalculation_eq (version : Nat) (hmacResult : Mem) (args : List (Mem × Nat))
    (context : Sha1Context) (hn : 8 * (64 + (texts args).length) < 2 ^ 64) :
    (hmacHddCalculation compress version hmacResult args context).bytesFrom 0 20 =
      hmacHdd compress version (texts args) := by
  have hdigest := sha1Result_texts compress args
    (hmacHddReset_absorbing (hmac1hddWords version) context) (by decide) hn
  unfold hmacHddCalculation
  dsimp only
  rw [hmac2hdd_own, hmacHdd]
  exact congrArg _ (hdigest _ 0)

/-! ### `HMAC_SHA1` -/

/-- The first loop fills the pad from the end down to the key. -/
theorem padTail_eq (keyLength : Nat) (pad : UInt8) (i : Nat) (state : Mem) :
    padTail keyLength pad i state =
      (min i keyLength, fun x => if keyLength ≤ x ∧ x < i then pad else state x) := by
  induction i generalizing state with
  | zero =>
      simp [padTail]
  | succ i ih =>
      unfold padTail
      by_cases htail : i ≥ keyLength
      · rw [if_pos htail, ih]
        refine Prod.ext (by dsimp only; omega) (funext fun x => ?_)
        dsimp only [Mem.store]
        grind
      · rw [if_neg htail]
        refine Prod.ext (by dsimp only; omega) (funext fun x => ?_)
        dsimp only
        rw [if_neg (by omega)]

/-- The second loop goes on with the key. -/
theorem padKey_eq (key : Nat → UInt8) (pad : UInt8) (i : Nat) (state : Mem) :
    padKey key pad i state = fun x => if x < i then key x ^^^ pad else state x := by
  induction i generalizing state with
  | zero =>
      simp [padKey]
  | succ i ih =>
      funext x
      rw [padKey, ih]
      dsimp only [Mem.store]
      grind

theorem padState_eq (key : Nat → UInt8) (keyLength : Nat) (pad : UInt8) (state : Mem) :
    padState key keyLength pad state = fun x =>
      if x < min 64 keyLength then key x ^^^ pad
      else if keyLength ≤ x ∧ x < 64 then pad else state x := by
  rw [padState, padTail_eq]
  exact padKey_eq key pad _ _

/-- The 64 bytes of a pad. -/
theorem padState_bytes (key : Nat → UInt8) {keyLength : Nat} (hkey : keyLength ≤ 64) (pad : UInt8) (state : Mem) :
    (padState key keyLength pad state).bytesFrom 0 64 =
      (Mem.bytesFrom key 0 keyLength ++ List.replicate (64 - keyLength) 0).map (· ^^^ pad) := by
  have hhead : (padState key keyLength pad state).bytesFrom 0 keyLength =
      (Mem.bytesFrom key 0 keyLength).map (· ^^^ pad) := by
    rw [Mem.bytesFrom, Mem.bytesFrom, List.map_map]
    refine List.map_congr_left fun i hi => ?_
    have hi : i < keyLength := List.mem_range.mp hi
    rw [padState_eq, Function.comp_apply, Nat.zero_add]
    exact if_pos (by omega)
  have htail : (padState key keyLength pad state).bytesFrom keyLength (64 - keyLength) =
      List.replicate (64 - keyLength) pad := by
    refine List.eq_replicate_iff.mpr ⟨Mem.bytesFrom_length _ _ _, fun b hb => ?_⟩
    obtain ⟨i, hi, rfl⟩ := List.mem_map.mp hb
    have hi : i < 64 - keyLength := List.mem_range.mp hi
    rw [padState_eq]
    dsimp only
    rw [if_neg (by omega), if_pos (by omega)]
  rw [show (64 : Nat) = keyLength + (64 - keyLength) by omega, Mem.bytesFrom_append, hhead, Nat.zero_add, htail,
    List.map_append, List.map_replicate, UInt8.zero_xor, Nat.add_sub_cancel_left]

/-- A pad ends where the digest begins. -/
theorem padState_above (key : Nat → UInt8) (keyLength : Nat) (pad : UInt8) (state : Mem) :
    (padState key keyLength pad state).bytesFrom 64 20 = state.bytesFrom 64 20 := by
  refine Mem.bytesFrom_congr fun i _ => ?_
  rw [padState_eq]
  dsimp only
  rw [if_neg (by omega), if_neg (by omega)]

/-- `HMAC_SHA1` is HMAC with SHA-1. -/
theorem hmacSha1_eq (locals : HmacLocals) (result : Mem) (key : Nat → UInt8) {keyLength : Nat}
    (hkey : keyLength ≤ 64) (text1 : Nat → UInt8) (text1Length : Nat) (text2 : Nat → UInt8) (text2Length : Nat)
    (hn : 8 * (64 + text1Length + text2Length) < 2 ^ 64) :
    (hmacSha1 compress locals result key keyLength text1 text1Length text2 text2Length).bytesFrom 0 20 =
      hmac compress (Mem.bytesFrom key 0 keyLength)
        (Mem.bytesFrom text1 0 text1Length ++ Mem.bytesFrom text2 0 text2Length) := by
  have hkeyBytes : (Mem.bytesFrom key 0 keyLength).length = keyLength := Mem.bytesFrom_length _ _ _
  -- Three pieces go into the first digest.
  have hinner := sha1Result_texts compress
    [(padState key keyLength 0x36 locals.state1, 0x40), (text1, text1Length), (text2, text2Length)]
    (sha1Reset_absorbing locals.context) (by decide)
    (by simp only [texts, List.flatMap_cons, List.flatMap_nil, List.length_append, Mem.bytesFrom_length,
          List.length_nil]
        omega)
  simp only [texts, List.flatMap_cons, List.flatMap_nil, padState_bytes key hkey, List.append_nil] at hinner
  simp only [hmacSha1]
  -- The pad and the digest behind it are one piece of the second.
  refine (sha1Result_texts compress [(_, 0x40 + 0x14)] (sha1Reset_absorbing _) (by decide)
    (by simp [texts]) result 0).trans ?_
  rw [texts, List.flatMap_singleton, hmac, sha1, sha1, hkeyBytes]
  dsimp only
  rw [Mem.bytesFrom_append, padState_bytes key hkey, Nat.zero_add, padState_above]
  exact congrArg _ (congrArg _ (hinner _ _))

end Cromwell.Hdd
