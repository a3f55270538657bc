/-
Module: Cromwell.Hdd.Key
Layer: Model
Purpose: From the EEPROM to the password of the hard disk: the two keyed hashes of `drivers/ide/BootHddKey.c`,
  the search for the version that unseals the key, and `CalculateDrivePassword` of `drivers/ide/BootIde.c`.
  What a local variable holds before it is written is an argument.
Imports: Cromwell.BootLibrary, Cromwell.Crypt.Sha1, Cromwell.Crypt.Rc4
Trusted boundary: reviewed against src/drivers/ide/BootHddKey.c, src/drivers/ide/BootIde.c, src/include/boot.h
Main exports: hmacSha1, hmacHddCalculation, KeyBuffers, bootHddKeyGenerateEepromKeyData, TsHarddiskInfo,
  calculateDrivePassword
-/
import Cromwell.BootLibrary
import Cromwell.Crypt.Sha1
import Cromwell.Crypt.Rc4

namespace Cromwell.Hdd

open ByteMemory Cromwell.Crypt
open Cromwell.BootLibrary (memcmp)

/-! ### The keyed hash of a version -/

/-- The words that `HMAC1hddReset` stores. -/
def hmac1hddWords : Nat → Sha1Words
  | 9 => ⟨0x85F9E51A, 0xE04613D2, 0x6D86A50C, 0x77C32E3C, 0x4BD717A4⟩
  | 10 => ⟨0x72127625, 0x336472B9, 0xBE609BEA, 0xF55E226B, 0x99958DAC⟩
  | 11 => ⟨0x39B06E79, 0xC9BD25E8, 0xDBC6B498, 0x40B4389D, 0x86BBD7ED⟩
  | 12 => ⟨0x8058763a, 0xf97d4e0e, 0x865a9762, 0x8a3d920d, 0x08995b2c⟩
  | _ => sha1Words

/-- The words that `HMAC2hddReset` stores. -/
def hmac2hddWords : Nat → Sha1Words
  | 9 => ⟨0x5D7A9C6B, 0xE1922BEB, 0xB82CCDBC, 0x3137AB34, 0x486B52B3⟩
  | 10 => ⟨0x76441D41, 0x4DE82659, 0x2E8EF85E, 0xB256FACA, 0xC4FE2DE8⟩
  | 11 => ⟨0x9B49BED3, 0x84B430FC, 0x6B8749CD, 0xEBFE5FE5, 0xD96E7393⟩
  | 12 => ⟨0x01075307, 0xa2f1e037, 0x1186eeea, 0x88da9992, 0x168a5609⟩
  | _ => sha1Words

/-- `SHA1Reset` with other words, as after a first block. -/
def hmacHddReset (words : Sha1Words) (context : Sha1Context) : Sha1Context :=
  { sha1Reset context with intermediateHash := words, lengthLow := 512 }

/-- `HMAC1hddReset`. -/
def hmac1hddReset (version : Nat) : Sha1Context → Sha1Context := hmacHddReset (hmac1hddWords version)

/-- `HMAC2hddReset`. -/
def hmac2hddReset (version : Nat) : Sha1Context → Sha1Context := hmacHddReset (hmac2hddWords version)

variable (compress : Sha1Words → List UInt8 → Sha1Words)

/-- The loop over the pointers and lengths in `args`. -/
def hmacHddInput : List (Mem × Nat) → Sha1Context → Sha1Context
  | [], context => context
  | (buffer, length) :: args, context =>
      hmacHddInput args (sha1Input compress context (fun _ => buffer) length).1

/-- `HMAC_hdd_calculation`: the first digest goes through the message block of the context itself. -/
def hmacHddCalculation (version : Nat) (hmacResult : Mem) (args : List (Mem × Nat)) (context : Sha1Context) :
    Mem :=
  let context := hmacHddInput compress args (hmac1hddReset version context)
  let (context, result) := sha1Result compress context
  let context := { context with messageBlock := storeDigest result context.messageBlock 0 }
  let context := hmac2hddReset version context
  let context := (sha1Input compress context (fun c => c.messageBlock) 0x14).1
  storeDigest (sha1Result compress context).2 hmacResult 0

/-! ### `HMAC_SHA1` -/

/-- `for(i=0x40-1; i>=key_length;--i) state[i] = pad;`, with the `i` it stops at, plus one. -/
def padTail (keyLength : Nat) (pad : UInt8) : Nat → Mem → Nat × Mem
  | 0, state => (0, state)
  | i + 1, state => if i ≥ keyLength then padTail keyLength pad i (state.store i pad) else (i + 1, state)

/-- `for(;i>=0;--i) state[i] = key[i] ^ pad;`. -/
def padKey (key : Nat → UInt8) (pad : UInt8) : Nat → Mem → Mem
  | 0, state => state
  | i + 1, state => padKey key pad i (state.store i (key i ^^^ pad))

/-- The two loops over the 64 bytes of a pad. -/
def padState (key : Nat → UInt8) (keyLength : Nat) (pad : UInt8) (state : Mem) : Mem :=
  let (i, state) := padTail keyLength pad 0x40 state
  padKey key pad i state

/-- The local variables of `HMAC_SHA1`. -/
structure HmacLocals where
  state1 : Mem
  state2 : Mem
  context : Sha1Context

/-- `HMAC_SHA1`. -/
def hmacSha1 (locals : HmacLocals) (result : Mem) (key : Nat → UInt8) (keyLength : Nat) (text1 : Nat → UInt8)
    (text1Length : Nat) (text2 : Nat → UInt8) (text2Length : Nat) : Mem :=
  let state1 := padState key keyLength 0x36 locals.state1
  let context := sha1Reset locals.context
  let context := (sha1Input compress context (fun _ => state1) 0x40).1
  let context := (sha1Input compress context (fun _ => text1) text1Length).1
  let context := (sha1Input compress context (fun _ => text2) text2Length).1
  let (context, digest) := sha1Result compress context
  let state2 := storeDigest digest locals.state2 0x40
  let state2 := padState key keyLength 0x5C state2
  let context := sha1Reset context
  let context := (sha1Input compress context (fun _ => state2) (0x40 + 0x14)).1
  storeDigest (sha1Result compress context).2 result 0

/-! ### Unsealing -/

/-- The buffers of `BootHddKeyGenerateEepromKeyData`. -/
structure KeyBuffers where
  pbEepromData : Mem
  pbResult : Mem
  baKeyHash : Mem
  baDataHashConfirm : Mem
  baEepromDataLocalCopy : Mem
  rc4Key : Rc4Key

/-- `rc4_crypt(&m[a], n, key)`. -/
def rc4CryptAt (m : Mem) (a n : Nat) (key : Rc4Key) : Mem × Rc4Key :=
  let crypted := rc4Crypt (m.bytesFrom a n) key
  (m.write a n fun i => crypted.1.getD i 0, crypted.2)

/-- The key of a version, from the hash in a fresh copy of the EEPROM. -/
def keyForVersion (context : Sha1Context) (counter : Nat) (b : KeyBuffers) : KeyBuffers :=
  let b := { b with rc4Key := ⟨fun _ => 0, 0, 0⟩ }
  let b := { b with baEepromDataLocalCopy := b.baEepromDataLocalCopy.write 0 0x30 b.pbEepromData }
  -- Calculate the Key-Hash
  let b := { b with
    baKeyHash := hmacHddCalculation compress counter b.baKeyHash [(b.baEepromDataLocalCopy, 20)] context }
  { b with rc4Key := rc4PrepareKey (b.baKeyHash.bytesFrom 0 20) }

/-- decrypt data (from eeprom) with generated key -/
def decryptLocalCopy (b : KeyBuffers) : KeyBuffers :=
  let confounder := rc4CryptAt b.baEepromDataLocalCopy 20 8 b.rc4Key
  let data := rc4CryptAt confounder.1 28 20 confounder.2
  { b with baEepromDataLocalCopy := data.1, rc4Key := data.2 }

/-- Calculate the Confirm-Hash -/
def confirmHash (context : Sha1Context) (counter : Nat) (b : KeyBuffers) : KeyBuffers :=
  { b with
    baDataHashConfirm := hmacHddCalculation compress counter b.baDataHashConfirm
      [(fun i => b.baEepromDataLocalCopy (20 + i), 8), (fun i => b.baEepromDataLocalCopy (28 + i), 20)]
      context }

/-- One round of the loop over the versions. The contexts of the two hashes lie where earlier calls have
    left their data, `stack` says which. -/
def unsealVersion (stack : Nat → Sha1Context) (counter : Nat) (b : KeyBuffers) : KeyBuffers :=
  let b := keyForVersion compress (stack (2 * counter)) counter b
  let b := decryptLocalCopy b
  confirmHash compress (stack (2 * counter + 1)) counter b

/-- `for (counter=9;counter<13;counter++)`, with the rounds that are left: the version and the buffers. -/
def unsealLoop (stack : Nat → Sha1Context) : Nat → Nat → KeyBuffers → Nat × KeyBuffers
  | 0, _, b => (0, b)
  | left + 1, counter, b =>
      let b := unsealVersion compress stack counter b
      if memcmp b.baEepromDataLocalCopy b.baDataHashConfirm 0x14 = 0 then (counter, b)
      else unsealLoop stack left (counter + 1) b

/-- `BootHddKeyGenerateEepromKeyData`: the version that is returned, and the buffers. -/
def bootHddKeyGenerateEepromKeyData (stack : Nat → Sha1Context) (b : KeyBuffers) : Nat × KeyBuffers :=
  let searched := unsealLoop compress stack 4 9 b
  -- copy out HDKey
  (searched.1, { searched.2 with
    pbResult := searched.2.pbResult.write 0 16 fun i => searched.2.baEepromDataLocalCopy (28 + i) })

/-! ### The password -/

/-- The identity of a drive in `tsHarddiskInfo`: two arrays and how much of them `copy_swap_trim` has left. -/
structure TsHarddiskInfo where
  mSzIdentityModelNumber : Vector UInt8 40
  mSzSerial : Vector UInt8 20
  sLength : Fin 21
  mLength : Fin 41

/-- What is uninitialised in `CalculateDrivePassword` and in what it calls. -/
structure PasswordLocals where
  baMagic : Mem
  baKeyFromEeprom : Mem
  baEeprom : Mem
  baKeyHash : Mem
  baDataHashConfirm : Mem
  baEepromDataLocalCopy : Mem
  rc4Key : Rc4Key
  stack : Nat → Sha1Context
  hmac : HmacLocals

/-- `CalculateDrivePassword`: the value that is returned, and the caller's key. -/
def calculateDrivePassword (locals : PasswordLocals) (eeprom : Mem) (info : TsHarddiskInfo) (key : Mem) :
    Nat × Mem :=
  let baEeprom := locals.baEeprom.write 0 0x30 eeprom
  let baKeyFromEeprom := locals.baKeyFromEeprom.fill 0 0x10 0x00
  let generated := bootHddKeyGenerateEepromKeyData compress locals.stack
    ⟨baEeprom, baKeyFromEeprom, locals.baKeyHash, locals.baDataHashConfirm, locals.baEepromDataLocalCopy,
      locals.rc4Key⟩
  let baMagic := locals.baMagic.fill 0 0x200 0x00
  let result := hmacSha1 compress locals.hmac (fun i => baMagic (2 + i)) generated.2.pbResult 0x10
    (fun i => info.mSzIdentityModelNumber.toList.getD i 0) info.mLength
    (fun i => info.mSzSerial.toList.getD i 0) info.sLength
  let baMagic := baMagic.write 2 20 result
  -- Failed to generate a key
  if generated.1 = 0 then (1, key)
  else (0, key.write 0 20 fun i => baMagic (2 + i))

end Cromwell.Hdd
