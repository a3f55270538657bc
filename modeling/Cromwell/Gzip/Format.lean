/-
Module: Cromwell.Gzip.Format
Layer: Spec
Purpose: The compressed format as a language: blocks of stored bytes or of coded symbols, the bits each of them is
  written with, and the bytes it stands for. This is what `inflate` is for, stated without its tables, its window
  and its buffers.
Imports: Cromwell.Gzip.Inflate, Cromwell.Lib.Canonical
Trusted boundary: human-reviewed spec
Main exports: Symbol, LengthOp, Trees, Block, Block.bits, Block.items, Block.Valid, streamBits, StreamValid, Header,
  checkSum, Encodes
-/
import Cromwell.Gzip.Inflate
import Cromwell.Lib.Canonical

namespace Cromwell.Gzip

open BitString Canonical
open Lz77 (Item)

/-! ### Symbols -/

/-- A byte, or a copy: the number of its length code with its extra bits, and those of its distance. -/
inductive Symbol where
  | literal (c : UInt8)
  | copy (i x j y : Nat)
deriving DecidableEq, Repr

namespace Symbol

/-- The bits of a symbol, for the code lengths of literals and lengths and those of distances. -/
def bits (ll dl : List Nat) : Symbol → List Bool
  | literal c => codeWord ll c.toNat
  | copy i x j y =>
      codeWord ll (257 + i) ++ (BitString.bits (cplext.getD i 0) x ++
        (codeWord dl j ++ BitString.bits (cpdext.getD j 0) y))

/-- What a symbol stands for. -/
def item : Symbol → Item UInt8
  | literal c => .literal c
  | copy i x j y => .copy (cpdist.getD j 0 + y) (cplens.getD i 0 + x)

/-- The symbol has a word in the code, and its extra bits are enough for the numbers they are for. -/
def Valid (ll dl : List Nat) : Symbol → Prop
  | literal c => ll.getD c.toNat 0 ≠ 0
  | copy i x j y =>
      i < 29 ∧ x < 2 ^ cplext.getD i 0 ∧ ll.getD (257 + i) 0 ≠ 0 ∧
        j < 30 ∧ y < 2 ^ cpdext.getD j 0 ∧ dl.getD j 0 ≠ 0

end Symbol

/-- The symbols of a block, with the end of block code behind them. -/
def codedBits (ll dl : List Nat) (symbols : List Symbol) : List Bool :=
  symbols.flatMap (Symbol.bits ll dl) ++ codeWord ll 256

/-! ### Code lengths that are themselves coded -/

/-- A code length, the last one again, or zeros, with the number the extra bits hold. -/
inductive LengthOp where
  | length (k : Nat)
  | again (x : Nat)
  | zeros (x : Nat)
  | manyZeros (x : Nat)
deriving DecidableEq, Repr

namespace LengthOp

/-- The code of an operation. -/
def symbol : LengthOp → Nat
  | length k => k
  | again _ => 16
  | zeros _ => 17
  | manyZeros _ => 18

/-- The extra bits of an operation. -/
def extra : LengthOp → List Bool
  | length _ => []
  | again x => BitString.bits 2 x
  | zeros x => BitString.bits 3 x
  | manyZeros x => BitString.bits 7 x

/-- The lengths an operation stands for, and the last one, for the last one before it. -/
def lengths (last : Nat) : LengthOp → List Nat × Nat
  | length k => ([k], k)
  | again x => (List.replicate (3 + x) last, last)
  | zeros x => (List.replicate (3 + x) 0, 0)
  | manyZeros x => (List.replicate (11 + x) 0, 0)

/-- The operation has a word in the code, and its extra bits are enough. -/
def Valid (cl : List Nat) (op : LengthOp) : Prop :=
  cl.getD op.symbol 0 ≠ 0 ∧
    match op with
    | length k => k < 16
    | again x => x < 4
    | zeros x => x < 8
    | manyZeros x => x < 128

end LengthOp

/-- The lengths a sequence of operations stands for. -/
def expandLengths : Nat → List LengthOp → List Nat
  | _, [] => []
  | last, op :: ops => (op.lengths last).1 ++ expandLengths (op.lengths last).2 ops

/-- The bits of a sequence of operations, for the lengths of their codes. -/
def lengthsBits (cl : List Nat) (ops : List LengthOp) : List Bool :=
  ops.flatMap fun op => codeWord cl op.symbol ++ op.extra

/-! ### Blocks -/

/-- The description of the codes of a dynamic block: how many literal and length codes, distance codes and bit length
    codes there are, the lengths of the bit length codes, and the coded lengths of the others. -/
structure Trees where
  nl : Nat
  nd : Nat
  nb : Nat
  cl : List Nat
  ops : List LengthOp
deriving DecidableEq, Repr

namespace Trees

/-- The code lengths of literals and lengths, and those of distances, in one list. -/
def all (t : Trees) : List Nat := expandLengths 0 t.ops

def ll (t : Trees) : List Nat := t.all.take t.nl

def dl (t : Trees) : List Nat := t.all.drop t.nl

/-- The bits of the description. -/
def bits (t : Trees) : List Bool :=
  BitString.bits 5 (t.nl - 257) ++ (BitString.bits 5 (t.nd - 1) ++ (BitString.bits 4 (t.nb - 4) ++
    ((border.take t.nb).flatMap (fun i => BitString.bits 3 (t.cl.getD i 0)) ++ lengthsBits t.cl t.ops)))

end Trees

/-- A code that fills the code space, or one without words of more than one bit. -/
def Usable (lens : List Nat) : Prop :=
  kraft bmax lens = 2 ^ bmax ∨ (kraft bmax lens < 2 ^ bmax ∧ ∀ x ∈ lens, x ≤ 1)

/-- A description that stands for usable codes: its numbers are in their ranges, and the operations give as many
    lengths as it says. -/
structure Trees.Valid (t : Trees) : Prop where
  nl : 257 ≤ t.nl ∧ t.nl ≤ 286
  nd : 1 ≤ t.nd ∧ t.nd ≤ 30
  nb : 4 ≤ t.nb ∧ t.nb ≤ 19
  places : t.cl.length = 19
  small : ∀ x ∈ t.cl, x < 8
  rest : ∀ i ∈ border.drop t.nb, t.cl.getD i 0 = 0
  cl : Usable t.cl
  ops : ∀ op ∈ t.ops, op.Valid t.cl
  length : t.all.length = t.nl + t.nd
  ll : Usable t.ll
  dl : Usable t.dl
  finish : t.ll.getD 256 0 ≠ 0

/-- A block: bytes as they are, behind bits up to the next byte; or symbols in the fixed codes, or in codes of their
    own. -/
inductive Block where
  | stored (pad : List Bool) (data : List UInt8)
  | fixed (symbols : List Symbol)
  | dynamic (trees : Trees) (symbols : List Symbol)
deriving DecidableEq, Repr

namespace Block

/-- The bits of a block. -/
def bits (final : Bool) : Block → List Bool
  | stored pad data =>
      final :: (BitString.bits 2 0 ++ (pad ++ (BitString.bits 16 data.length ++
        (BitString.bits 16 (65535 - data.length) ++ ofBytes data))))
  | fixed symbols => final :: (BitString.bits 2 1 ++ codedBits fixedLiteral fixedDistance symbols)
  | dynamic trees symbols => final :: (BitString.bits 2 2 ++ (trees.bits ++ codedBits trees.ll trees.dl symbols))

/-- What a block stands for. -/
def items : Block → List (Item UInt8)
  | stored _ data => data.map .literal
  | fixed symbols => symbols.map Symbol.item
  | dynamic _ symbols => symbols.map Symbol.item

/-- A block that can stand `off` bits behind the beginning of a byte. -/
def Valid (off : Nat) : Block → Prop
  | stored pad data => pad.length < 8 ∧ (off + 3 + pad.length) % 8 = 0 ∧ data.length < 65536
  | fixed symbols => ∀ x ∈ symbols, x.Valid fixedLiteral fixedDistance
  | dynamic trees symbols => trees.Valid ∧ ∀ x ∈ symbols, x.Valid trees.ll trees.dl

end Block

/-- The bits of a sequence of blocks; the last one is marked. -/
def streamBits : List Block → List Bool
  | [] => []
  | [b] => b.bits true
  | b :: b' :: blocks => b.bits false ++ streamBits (b' :: blocks)

/-- What a sequence of blocks stands for. -/
def streamItems (blocks : List Block) : List (Item UInt8) := blocks.flatMap Block.items

/-- There is a block, and each can stand where it does. -/
def StreamValid : Nat → List Block → Prop
  | _, [] => False
  | off, [b] => b.Valid off
  | off, b :: b' :: blocks => b.Valid off ∧ StreamValid (off + (b.bits false).length) (b' :: blocks)

/-! ### Files -/

/-- A file header: the flags, the six bytes that are passed over, and the optional fields. -/
structure Header where
  magic1 : UInt8
  flags : UInt8
  passed : List UInt8
  extra : List UInt8
  name : List UInt8
  comment : List UInt8
deriving DecidableEq, Repr

namespace Header

/-- The bytes of a header. -/
def bytes (h : Header) : List UInt8 :=
  [0x1f, h.magic1, 8, h.flags] ++ h.passed ++
    (if h.flags &&& 0x04 ≠ 0 then
      [UInt8.ofNat h.extra.length, UInt8.ofNat (h.extra.length / 256)] ++ h.extra else []) ++
    (if h.flags &&& 0x08 ≠ 0 then h.name ++ [0] else []) ++
    (if h.flags &&& 0x10 ≠ 0 then h.comment ++ [0] else [])

/-- A header `gunzip` accepts: one of the two magic numbers, no flag it does not know, and strings that end where they
    should. -/
structure Valid (h : Header) : Prop where
  magic : h.magic1 = 0x8b ∨ h.magic1 = 0x9e
  plain : h.flags &&& 0x20 = 0
  whole : h.flags &&& 0x02 = 0
  known : h.flags &&& 0xC0 = 0
  passed : h.passed.length = 6
  extra : h.extra.length < 65536
  name : ∀ c ∈ h.name, c ≠ 0
  comment : ∀ c ∈ h.comment, c ≠ 0

end Header

/-- A number of 32 bits, lowest byte first. -/
def longBytes (n : Nat) : List UInt8 :=
  [UInt8.ofNat n, UInt8.ofNat (n / 2 ^ 8), UInt8.ofNat (n / 2 ^ 16), UInt8.ofNat (n / 2 ^ 24)]

/-- The check sum of a file's contents: the remainder by the polynomial, begun and ended with all bits flipped. -/
def checkSum (out : List UInt8) : Nat :=
  (Crc.feed crcPolynomial 0xffffffff#32 (ofBytes out) ^^^ 0xffffffff#32).toNat

/-- `file` is a compressed file with the contents `out`: a header, the bits of some blocks filled up to a byte, the
    check sum and the length. -/
structure Encodes (header : Header) (blocks : List Block) (body file out : List UInt8) : Prop where
  headerValid : header.Valid
  blocksValid : StreamValid 0 blocks
  filled : ∃ pad, pad.length < 8 ∧ ofBytes body = streamBits blocks ++ pad
  contained : Lz77.SelfContained 0 (streamItems blocks)
  contents : out = Lz77.expand [] (streamItems blocks)
  layout : file = header.bytes ++ body ++ longBytes (checkSum out) ++ longBytes out.length

end Cromwell.Gzip
