/-
Module: Cromwell.Hdd.Concatenation
Layer: Proofs
Purpose: The keyed hashes see one message, however it is cut. `HMAC_SHA1` is HMAC of RFC 2104 over its two texts one
  after the other; `HMAC_hdd_calculation` depends on the bytes of its buffers one after the other, and that for every
  length: a context that is too full takes nothing more, wherever the cuts are.
Imports: Cromwell.Hdd.Unseal
Trusted boundary: human-reviewed statement (key0)
Main exports: inputBytes, inputBytes_append, hmacHddInput_texts, key0, keyed_hashes_concatenate
-/
import Cromwell.Hdd.Unseal

namespace Cromwell.Hdd

open ByteMemory Cromwell.Crypt

variable (compress : Sha1Words → List UInt8 → Sha1Words)

/-! ### One message -/

/-- The bytes of a message go in as long as the context is not corrupted. -/
def inputBytes : List UInt8 → Sha1Context → Sha1Context
  | [], context => context
  | b :: bytes, context =>
      if context.corrupted ≠ 0 then context else inputBytes bytes (sha1InputByte compress context b)

theorem inputBytes_corrupted {context : Sha1Context} (h : context.corrupted ≠ 0) (bytes : List UInt8) :
    inputBytes compress bytes context = context := by
  cases bytes with
  | nil => rfl
  | cons b bytes => exact if_pos h

/-- What is left out of a first piece is left out of a second one. -/
theorem inputBytes_append (bytes more : List UInt8) (context : Sha1Context) :
    inputBytes compress (bytes ++ more) context = inputBytes compress more (inputBytes compress bytes context) := by
  induction bytes generalizing context with
  | nil => rfl
  | cons b bytes ih =>
      rw [List.cons_append, inputBytes, inputBytes]
      split
      · rename_i hcorrupted
        exact (inputBytes_corrupted compress hcorrupted more).symm
      · exact ih _

theorem sha1InputByte_computed (context : Sha1Context) (b : UInt8) :
    (sha1InputByte compress context b).computed = context.computed := by
  have hcount : (context.put b).count.computed = context.computed := by
    unfold Sha1Context.count
    dsimp only
    split
    · split <;> rfl
    · rfl
  unfold sha1InputByte
  dsimp only
  split
  · exact hcount
  · exact hcount

theorem inputBytes_computed (bytes : List UInt8) (context : Sha1Context) :
    (inputBytes compress bytes context).computed = context.computed := by
  induction bytes generalizing context with
  | nil => rfl
  | cons b bytes ih =>
      rw [inputBytes]
      split
      · rfl
      · rw [ih, sha1InputByte_computed]

theorem sha1InputLoop_bytes (message : Nat → UInt8) (length i : Nat) (context : Sha1Context) :
    sha1InputLoop compress (fun _ => message) length i context =
      inputBytes compress (Mem.bytesFrom message i length) context := by
  induction length generalizing i context with
  | zero => rfl
  | succ length ih =>
      rw [sha1InputLoop, Mem.bytesFrom_cons, inputBytes]
      split
      · rfl
      · exact ih (i + 1) _

/-- `SHA1Input` before the digest has been computed. -/
theorem sha1Input_bytes {context : Sha1Context} (h : context.computed = false) (message : Nat → UInt8) (length : Nat) :
    (sha1Input compress context (fun _ => message) length).1 =
      inputBytes compress (Mem.bytesFrom message 0 length) context := by
  unfold sha1Input
  by_cases hzero : length = 0
  · subst hzero
    rfl
  · rw [if_neg hzero, if_neg (by rw [h]; exact Bool.false_ne_true)]
    by_cases hcorrupted : context.corrupted ≠ 0
    · rw [if_pos hcorrupted, inputBytes_corrupted compress hcorrupted]
    · rw [if_neg hcorrupted]
      exact sha1InputLoop_bytes compress message length 0 context

/-- The loop over the buffers takes in their bytes, one after the other. -/
theorem hmacHddInput_texts (args : List (Mem × Nat)) {context : Sha1Context} (h : context.computed = false) :
    hmacHddInput compress args context = inputBytes compress (texts args) context := by
  induction args generalizing context with
  | nil => rfl
  | cons arg args ih =>
      obtain ⟨buffer, length⟩ := arg
      have htexts : texts ((buffer, length) :: args) = buffer.bytesFrom 0 length ++ texts args := List.flatMap_cons
      rw [hmacHddInput, sha1Input_bytes compress h, htexts, inputBytes_append]
      exact ih ((inputBytes_computed compress _ _).trans h)

/-- `HMAC_hdd_calculation` does not see where its buffers end. -/
theorem hmacHddCalculation_congr (version : Nat) (hmacResult : Mem) {args args' : List (Mem × Nat)}
    (h : texts args = texts args') (context : Sha1Context) :
    hmacHddCalculation compress version hmacResult args context =
      hmacHddCalculation compress version hmacResult args' context := by
  have hinput : hmacHddInput compress args (hmac1hddReset version context) =
      hmacHddInput compress args' (hmac1hddReset version context) := by
    rw [hmacHddInput_texts compress args rfl, hmacHddInput_texts compress args' rfl, h]
  unfold hmacHddCalculation
  rw [hinput]

/-! ### HMAC -/

/-- The key with zeros up to the length of a block. -/
def key0 (key : List UInt8) : List UInt8 := key ++ List.replicate (64 - key.length) 0

/-- `HMAC_SHA1` of a key and two texts. -/
def hmacSha1Of (locals : HmacLocals) (result : Mem) (key text1 text2 : List UInt8) : List UInt8 :=
  (hmacSha1 compress locals result (key.getD · 0) key.length (text1.getD · 0) text1.length (text2.getD · 0)
    text2.length).bytesFrom 0 20

/-- `HMAC_SHA1` in terms of SHA-1; the lengths are of type `int`. -/
theorem hmacSha1Of_eq (locals : HmacLocals) (result : Mem) {key text1 text2 : List UInt8} (hkey : key.length ≤ 64)
    (htext1 : text1.length < 2 ^ 31) (htext2 : text2.length < 2 ^ 31) :
    hmacSha1Of compress locals result key text1 text2 =
      sha1 compress ((key0 key).map (· ^^^ 0x5C) ++ sha1 compress ((key0 key).map (· ^^^ 0x36) ++ (text1 ++ text2))) := by
  have hbytes : ∀ l : List UInt8, Mem.bytesFrom (l.getD · 0) 0 l.length = l := fun l =>
    (Mem.bytesFrom_getD (Nat.le_refl l.length)).trans List.take_length
  rw [hmacSha1Of, hmacSha1_eq compress locals result _ hkey _ _ _ _ (by omega), hbytes, hbytes, hbytes]
  rfl

/-- For every key of up to 64 bytes, all texts and all buffers, and whatever lies on the stack and in the result
    before: `HMAC_SHA1` is HMAC over its texts one after the other, and `HMAC_hdd_calculation` stores the keyed hash of
    the bytes of its buffers one after the other. Neither depends on where the pieces are cut; the second one does not
    even where its buffers are too long for the count of the context and no digest is stored. -/
theorem keyed_hashes_concatenate :
    (∀ locals result (key text1 text2 : List UInt8), key.length ≤ 64 → text1.length < 2 ^ 31 → text2.length < 2 ^ 31 →
      hmacSha1Of compress locals result key text1 text2 =
          sha1 compress
            ((key0 key).map (· ^^^ 0x5C) ++ sha1 compress ((key0 key).map (· ^^^ 0x36) ++ (text1 ++ text2))) ∧
        ∀ locals' result' (text1' text2' : List UInt8), text1'.length < 2 ^ 31 → text2'.length < 2 ^ 31 →
          text1' ++ text2' = text1 ++ text2 →
            hmacSha1Of compress locals' result' key text1' text2' =
              hmacSha1Of compress locals result key text1 text2) ∧
      ∀ version hmacResult (args : List (Mem × Nat)) context,
        (8 * (64 + (texts args).length) < 2 ^ 64 →
          (hmacHddCalculation compress version hmacResult args context).bytesFrom 0 20 =
              hmacHdd compress version (texts args) ∧
            ∀ hmacResult' (args' : List (Mem × Nat)) context', texts args' = texts args →
              (hmacHddCalculation compress version hmacResult' args' context').bytesFrom 0 20 =
                (hmacHddCalculation compress version hmacResult args context).bytesFrom 0 20) ∧
        ∀ args' : List (Mem × Nat), texts args = texts args' →
          hmacHddCalculation compress version hmacResult args context =
            hmacHddCalculation compress version hmacResult args' context := by
  refine ⟨fun locals result key text1 text2 hkey htext1 htext2 => ?_, fun version hmacResult args context =>
    ⟨fun hlength => ?_, fun args' h => hmacHddCalculation_congr compress version hmacResult h context⟩⟩
  · have heq := hmacSha1Of_eq compress locals result hkey htext1 htext2
    refine ⟨heq, fun locals' result' text1' text2' htext1' htext2' hsame => ?_⟩
    rw [heq, hmacSha1Of_eq compress locals' result' hkey htext1' htext2', hsame]
  · have heq := hmacHddCalculation_eq compress version hmacResult args context hlength
    refine ⟨heq, fun hmacResult' args' context' hsame => ?_⟩
    rw [heq, hmacHddCalculation_eq compress version hmacResult' args' context' (hsame.symm ▸ hlength), hsame]

/-- A stack of zeros. -/
def clearedLocals : HmacLocals := ⟨fun _ => 0, fun _ => 0, ⟨sha1Words, 0, 0, 0, fun _ => 0, false, 0⟩⟩

/-- Two cuts of one text under one key, and two cuts of one buffer over different stacks and results. -/
theorem keyed_hashes_concatenate_cuts :
    hmacSha1Of sha1Compress clearedLocals (fun _ => 0) [0x0B] [0x48, 0x69] [] =
        hmacSha1Of sha1Compress clearedLocals (fun _ => 0) [0x0B] [0x48] [0x69] ∧
      (hmacHddCalculation sha1Compress 9 (fun _ => 0) [(fun _ => 1, 2)] clearedLocals.context).bytesFrom 0 20 =
        hmacHdd sha1Compress 9 [1, 1] ∧
      (hmacHddCalculation sha1Compress 9 (fun _ => 7) [(fun _ => 1, 1), (fun _ => 1, 1)]
          { clearedLocals.context with computed := true }).bytesFrom 0 20 =
        (hmacHddCalculation sha1Compress 9 (fun _ => 0) [(fun _ => 1, 2)] clearedLocals.context).bytesFrom 0 20 := by
  obtain ⟨hhmac, hhdd⟩ := keyed_hashes_concatenate sha1Compress
  have hvalue := (hhdd 9 (fun _ => 0) [(fun _ => 1, 2)] clearedLocals.context).1 (by decide)
  exact ⟨(hhmac clearedLocals (fun _ => 0) [0x0B] [0x48] [0x69] (by decide) (by decide) (by decide)).2 clearedLocals
    (fun _ => 0) [0x48, 0x69] [] (by decide) (by decide) rfl, hvalue.1, hvalue.2 _ _ _ (by decide)⟩

end Cromwell.Hdd
