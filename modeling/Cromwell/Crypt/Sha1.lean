/-
Module: Cromwell.Crypt.Sha1
Layer: Model
Purpose: The hash context of `lib/crypt/sha1.c` with `SHA1Reset`, `SHA1Input` and `SHA1Result`, and the hash of
  a message as the standard states it, resumed from any chaining value at a block boundary. A message pointer
  may point into the context that absorbs it, so what is read through it depends on the context.
Imports: Cromwell.Lib.Buffer, Cromwell.Lib.BlockHash
Trusted boundary: reviewed against src/lib/crypt/sha1.c, src/lib/crypt/sha1.h
Main exports: Sha1Words, Sha1Context, sha1Compress, sha1Reset, sha1Input, sha1PadMessage, sha1Result, sha1From,
  sha1
-/
import Cromwell.Lib.Buffer
import Cromwell.Lib.BlockHash

namespace Cromwell.Crypt

open ByteMemory

/-- Five 32-bit words: `Intermediate_Hash`, or the word buffers `A` to `E`. -/
structure Sha1Words where
  a : UInt32
  b : UInt32
  c : UInt32
  d : UInt32
  e : UInt32
  deriving DecidableEq

/-- `Intermediate_Hash[i]`. -/
def Sha1Words.get (h : Sha1Words) : Nat → UInt32
  | 0 => h.a
  | 1 => h.b
  | 2 => h.c
  | 3 => h.d
  | _ => h.e

/-- `Intermediate_Hash[i>>2] >> 8 * ( 3 - ( i & 0x03 ) )`, as a byte. -/
def Sha1Words.digestByte (h : Sha1Words) (i : Nat) : UInt8 :=
  (h.get (i / 4) >>> UInt32.ofNat (8 * (3 - i % 4))).toUInt8

/-- The 20 bytes of a digest. -/
def Sha1Words.digest (h : Sha1Words) : List UInt8 := (List.range 20).map h.digestByte

/-! ### Compression -/

/-- `SHA1CircularShift`. -/
def sha1CircularShift (bits word : UInt32) : UInt32 := (word <<< bits) ||| (word >>> (32 - bits))

/-- `W[t]` of the first 16 words. -/
def messageWord (block : List UInt8) (t : Nat) : UInt32 :=
  (block.getD (t * 4) 0).toUInt32 <<< 24 ||| (block.getD (t * 4 + 1) 0).toUInt32 <<< 16 |||
    (block.getD (t * 4 + 2) 0).toUInt32 <<< 8 ||| (block.getD (t * 4 + 3) 0).toUInt32

/-- The words of `W` that come after the ones in `w`, the last word first. -/
def extendSchedule : Nat → List UInt32 → List UInt32
  | 0, w => w
  | n + 1, w =>
      extendSchedule n
        (sha1CircularShift 1 (w.getD 2 0 ^^^ w.getD 7 0 ^^^ w.getD 13 0 ^^^ w.getD 15 0) :: w)

/-- The 80 words of `W`. -/
def messageSchedule (block : List UInt8) : List UInt32 :=
  (extendSchedule 64 ((List.range 16).map (messageWord block)).reverse).reverse

/-- The function of `B`, `C` and `D` in round `t`, with the constant of `K`. -/
def roundFunction (t : Nat) (x : Sha1Words) : UInt32 :=
  if t < 20 then ((x.b &&& x.c) ||| (~~~x.b &&& x.d)) + 0x5A827999
  else if t < 40 then (x.b ^^^ x.c ^^^ x.d) + 0x6ED9EBA1
  else if t < 60 then ((x.b &&& x.c) ||| (x.b &&& x.d) ||| (x.c &&& x.d)) + 0x8F1BBCDC
  else (x.b ^^^ x.c ^^^ x.d) + 0xCA62C1D6

/-- One of the 80 rounds. -/
def sha1Round (x : Sha1Words) (tw : Nat × UInt32) : Sha1Words :=
  ⟨sha1CircularShift 5 x.a + roundFunction tw.1 x + x.e + tw.2, x.a, sha1CircularShift 30 x.b, x.c, x.d⟩

/-- The words that `SHA1ProcessMessageBlock` computes from the words and a block of 64 bytes. -/
def sha1Compress (h : Sha1Words) (block : List UInt8) : Sha1Words :=
  let x := ((List.range 80).zip (messageSchedule block)).foldl sha1Round h
  ⟨h.a + x.a, h.b + x.b, h.c + x.c, h.d + x.d, h.e + x.e⟩

/-! ### The context -/

/-- `SHA1Context`. -/
structure Sha1Context where
  intermediateHash : Sha1Words
  lengthLow : UInt32
  lengthHigh : UInt32
  messageBlockIndex : Nat
  messageBlock : Mem
  computed : Bool
  corrupted : Nat

/-- `shaSuccess`. -/
def shaSuccess : Nat := 0

/-- `shaStateError`. -/
def shaStateError : Nat := 3

/-- The words that `SHA1Reset` stores. -/
def sha1Words : Sha1Words := ⟨0x67452301, 0xEFCDAB89, 0x98BADCFE, 0x10325476, 0xC3D2E1F0⟩

/-- `SHA1Reset`; the message block keeps its bytes. -/
def sha1Reset (context : Sha1Context) : Sha1Context :=
  { context with
    lengthLow := 0
    lengthHigh := 0
    messageBlockIndex := 0
    intermediateHash := sha1Words
    computed := false
    corrupted := 0 }

-- The compression is a parameter from here on: nothing below looks into it.
variable (compress : Sha1Words → List UInt8 → Sha1Words)

/-- `SHA1ProcessMessageBlock`. -/
def sha1ProcessMessageBlock (context : Sha1Context) : Sha1Context :=
  { context with
    intermediateHash := compress context.intermediateHash (context.messageBlock.bytesFrom 0 64)
    messageBlockIndex := 0 }

/-- `Message_Block[Message_Block_Index++] = b`. -/
def Sha1Context.put (context : Sha1Context) (b : UInt8) : Sha1Context :=
  { context with
    messageBlock := context.messageBlock.store context.messageBlockIndex b
    messageBlockIndex := context.messageBlockIndex + 1 }

/-- `Length_Low += 8` with its carry. -/
def Sha1Context.count (context : Sha1Context) : Sha1Context :=
  let context := { context with lengthLow := context.lengthLow + 8 }
  if context.lengthLow = 0 then
    let context := { context with lengthHigh := context.lengthHigh + 1 }
    -- Message is too long
    if context.lengthHigh = 0 then { context with corrupted := 1 } else context
  else context

/-- The body of the `while` of `SHA1Input`. -/
def sha1InputByte (context : Sha1Context) (b : UInt8) : Sha1Context :=
  let context := (context.put b).count
  if context.messageBlockIndex = 64 then sha1ProcessMessageBlock compress context else context

/-- `while(length-- && !context->Corrupted)`, with `message_array` moved by `i` bytes. -/
def sha1InputLoop (messageArray : Sha1Context → Nat → UInt8) : Nat → Nat → Sha1Context → Sha1Context
  | 0, _, context => context
  | length + 1, i, context =>
      if context.corrupted ≠ 0 then context
      else sha1InputLoop messageArray length (i + 1) (sha1InputByte compress context (messageArray context i))

/-- `SHA1Input`. -/
def sha1Input (context : Sha1Context) (messageArray : Sha1Context → Nat → UInt8) (length : Nat) :
    Sha1Context × Nat :=
  if length = 0 then (context, shaSuccess)
  else if context.computed then ({ context with corrupted := shaStateError }, shaStateError)
  else if context.corrupted ≠ 0 then (context, context.corrupted)
  else (sha1InputLoop compress messageArray length 0 context, shaSuccess)

/-- `while(Message_Block_Index < n) Message_Block[Message_Block_Index++] = 0`. -/
def Sha1Context.zerosTo (context : Sha1Context) (n : Nat) : Sha1Context :=
  { context with
    messageBlock := context.messageBlock.fill context.messageBlockIndex (n - context.messageBlockIndex) 0
    messageBlockIndex := max context.messageBlockIndex n }

/-- The message length as the octets 56 to 63. -/
def Sha1Context.lengthByte (context : Sha1Context) (i : Nat) : UInt8 :=
  if i < 4 then (context.lengthHigh >>> UInt32.ofNat (8 * (3 - i))).toUInt8
  else (context.lengthLow >>> UInt32.ofNat (8 * (7 - i))).toUInt8

/-- `SHA1PadMessage`. -/
def sha1PadMessage (context : Sha1Context) : Sha1Context :=
  let context :=
    if context.messageBlockIndex > 55 then
      (sha1ProcessMessageBlock compress ((context.put 0x80).zerosTo 64)).zerosTo 56
    else (context.put 0x80).zerosTo 56
  sha1ProcessMessageBlock compress
    { context with messageBlock := context.messageBlock.write 56 8 context.lengthByte }

/-- `SHA1Result`: an error code, or the digest bytes that are stored to `Message_Digest`. -/
def sha1Result (context : Sha1Context) : Sha1Context × Except Nat (Nat → UInt8) :=
  if context.corrupted ≠ 0 then (context, .error context.corrupted)
  else
    let context :=
      if context.computed then context
      else
        { sha1PadMessage compress context with
          messageBlock := (sha1PadMessage compress context).messageBlock.fill 0 64 0
          lengthLow := 0
          lengthHigh := 0
          computed := true }
    (context, .ok context.intermediateHash.digestByte)

/-- The bytes at `a` after `SHA1Result` was given the pointer to them. -/
def storeDigest (result : Except Nat (Nat → UInt8)) (m : Mem) (a : Nat) : Mem :=
  match result with
  | .error _ => m
  | .ok digest => m.write a 20 digest

/-! ### The hash of a message -/

/-- The eight bytes of a length in bits, the most significant first. -/
def lengthBytes (bits : Nat) : List UInt8 := (List.range 8).map fun i => UInt8.ofNat (bits / 256 ^ (7 - i))

/-- The padding of a message of `n` bytes. -/
def padding (n : Nat) : List UInt8 :=
  0x80 :: List.replicate ((119 - n % 64) % 64) 0 ++ lengthBytes (8 * n)

/-- The digest of a message that follows `before` bytes, a multiple of 64, that have led to the words `h`. -/
def sha1From (h : Sha1Words) (before : Nat) (message : List UInt8) : List UInt8 :=
  (BlockHash.absorb compress 64 (h, []) (message ++ padding (before + message.length))).1.digest

/-- The digest of a message. -/
def sha1 (message : List UInt8) : List UInt8 := sha1From compress sha1Words 0 message

end Cromwell.Crypt
