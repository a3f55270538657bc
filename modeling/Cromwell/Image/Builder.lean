/-
Module: Cromwell.Image.Builder
Layer: Model
Purpose: `romcopy` of `lib/imagebld/imagebld.c`, which turns the boot loader and the packed system into the
  256K and the 1MB flash image. Every `memset` and `memcpy` is a checked access of the buffer it goes to,
  in the order of the source; an access outside is `none`. Both files are there and are read whole; SHA-1
  and MD5 are parameters.
Imports: Cromwell.Lib.Buffer
Trusted boundary: reviewed against src/lib/imagebld/imagebld.c
Main exports: Hashes, Checksumstruct, loaderImage, writeBiosIdentifier, assemble, romcopy
-/
import Cromwell.Lib.Buffer

namespace Cromwell.Image

open ByteMemory

/-- The hash functions; byte `i` of a digest. -/
structure Hashes where
  sha1 : List UInt8 → Nat → UInt8
  md5 : List UInt8 → Nat → UInt8

/-- `struct Checksumstruct`. -/
structure Checksumstruct where
  checksum : Nat → UInt8
  sizeRamcopy : Nat
  compressedImageStart : Nat
  compressedImageSize : Nat
  biossizeType : Nat

/-- The 36 bytes of the struct in memory. -/
def Checksumstruct.bytes (s : Checksumstruct) : Nat → UInt8 := fun i =>
  if i < 20 then s.checksum i
  else if i < 24 then Mem.wordByte s.sizeRamcopy (i - 20)
  else if i < 28 then Mem.wordByte s.compressedImageStart (i - 24)
  else if i < 32 then Mem.wordByte s.compressedImageSize (i - 28)
  else Mem.wordByte s.biossizeType (i - 32)

/-- The struct at the start of a memory. -/
def Checksumstruct.load (m : Mem) : Checksumstruct where
  checksum := m
  sizeRamcopy := m.loadWord 20
  compressedImageStart := m.loadWord 24
  compressedImageSize := m.loadWord 28
  biossizeType := m.loadWord 32

/-- The single bytes stored into the top of the loader image: a jump, the GDT and its descriptor. -/
def topRom : List (Nat × UInt8) :=
  [ (0x3ffcf, 0xfc), (0x3ffd0, 0xea), (0x3ffd2, 0x10), (0x3ffd3, 0xfc), (0x3ffd4, 0xff), (0x3ffd5, 0x08),
    (0x3ffd7, 0x90), (0x3ffe0, 0xff), (0x3ffe1, 0xff), (0x3ffe5, 0x9b), (0x3ffe6, 0xcf), (0x3ffe8, 0xff),
    (0x3ffe9, 0xff), (0x3ffed, 0x93), (0x3ffee, 0xcf), (0x3fff4, 0x18), (0x3fff5, 0x00), (0x3fff6, 0xd8),
    (0x3fff7, 0xff), (0x3fff8, 0xff), (0x3fff9, 0xff) ]

/-- The loader image with its top written; the buffer is zeroed before the file is read into it. -/
def loaderImage (blbin : List UInt8) : Mem :=
  let m : Mem := fun i => if i < 0x40000 then blbin.getD i 0 else 0
  let m := (m.fill 0x3fe00 512 0x90).fill 0x3ffd0 32 0x00
  topRom.foldl (fun m p => m.store p.1 p.2) m

/-- `bootloaderpos`, the helper word at `0x40`. -/
def bootloaderpos (blbin : List UInt8) : Nat := (loaderImage blbin).loadWord 0x40

/-- The loader image with the helper word cleared, which is what all the rest works with. -/
def clearedImage (blbin : List UInt8) : Mem := (loaderImage blbin).fill 0x40 4 0x00

/-- `bootloaderstruct` as it is read. -/
def bootloaderstruct (blbin : List UInt8) : Checksumstruct :=
  Checksumstruct.load fun i => clearedImage blbin (bootloaderpos blbin + i)

/-- `compressed_image_start`. -/
def compressedImageStart (bootloaderpos sizeRamcopy : Nat) : Nat :=
  let temp := u32 (bootloaderpos + sizeRamcopy)
  let temp := temp &&& 0xfffffff0
  let temp := u32 (temp + 0x10)
  u32 (temp + 0x100)

/-- Put the struct into an image and dump the hash of the loader behind its first 20 bytes there. -/
def dumpChecksum (H : Hashes) (flash : Buffer) (pos : Nat) (s : Checksumstruct) : Option Buffer := do
  let flash ← flash.write pos 36 s.bytes
  let hashed ← flash.slice (u32 (pos + 20)) (sub32 s.sizeRamcopy 20)
  flash.write pos 20 (H.sha1 (Mem.bytesFrom hashed 0 (sub32 s.sizeRamcopy 20)))

/-- `"Cromwell 2.41-dev"` with its NUL. -/
def biosName : List UInt8 :=
  [0x43, 0x72, 0x6f, 0x6d, 0x77, 0x65, 0x6c, 0x6c, 0x20, 0x32, 0x2e, 0x34, 0x31, 0x2d, 0x64, 0x65, 0x76, 0x00]

/-- `writeBiosIdentifier`: the fields of the struct in the last 64 bytes, the MD5 of all before it last. -/
def writeBiosIdentifier (H : Hashes) (image : Buffer) (biosSize : Nat) : Option Buffer := do
  let header := biosSize - 64
  let image ← image.write header 4 ([0x41, 0x55, 0x54, 0x4f].getD · 0)
  let image ← image.fill (header + 4) 1 1
  let image ← image.write (header + 12) 4 (Mem.wordByte biosSize)
  let image ← image.write (header + 16) biosName.length (biosName.getD · 0)
  let image ← image.fill (header + 5) 1 0x7f
  let image ← image.fill (header + 6) 1 0x03
  let hashed ← image.slice 0 (biosSize - 16)
  image.write (header + 48) 16 (H.md5 (Mem.bytesFrom hashed 0 (biosSize - 16)))

/-- The loader in the first and the last bank of the 1MB image, with `0xff` up to its top. -/
def loaderBanks (flash1024 : Buffer) (start : Nat) : Option Buffer := do
  let flash1024 ← flash1024.fill start (sub32 (sub32 0x40000 start) 512) 0xff
  let bank0 ← flash1024.slice 0 0x40000
  flash1024.write 0xc0000 0x40000 bank0

/-- The packed system in the 256K image; its hash is the second result. -/
def systemBank (H : Hashes) (flash256 : Buffer) (start romsize : Nat) (crom : Nat → UInt8) :
    Option (Buffer × (Nat → UInt8)) := do
  let flash256 ← flash256.fill (u32 (start + 20 + romsize))
    (sub32 (sub32 0x40000 (u32 (start + 20 + romsize))) 512) 0xff
  let flash256 ← flash256.write (u32 (start + 20)) romsize crom
  let hashed ← flash256.slice (u32 (start + 20)) romsize
  let flash256 ← flash256.write start 20 (H.sha1 (Mem.bytesFrom hashed 0 romsize))
  pure (flash256, H.sha1 (Mem.bytesFrom hashed 0 romsize))

/-- The packed system in the two banks between, "as ... you know". -/
def systemBanks (flash1024 : Buffer) (start romsize : Nat) (crom result : Nat → UInt8) : Option Buffer := do
  let flash1024 ← flash1024.fill 0x40000 0x80000 0xff
  let flash1024 ← flash1024.write (u32 (start + 0x40000)) 20 result
  let flash1024 ← flash1024.write (u32 (start + 20 + 0x40000)) romsize crom
  let flash1024 ← flash1024.write (u32 (start + 0x80000)) 20 result
  flash1024.write (u32 (start + 20 + 0x80000)) romsize crom

/-- Everything after both files have been read and the header is known. -/
def assemble (H : Hashes) (image : Mem) (pos start romsize : Nat) (s : Checksumstruct)
    (crom : Nat → UInt8) : Option (Buffer × Buffer) := do
  let flash256 ← (Buffer.zeros 0x40000).write 0 0x40000 image
  let flash1024 ← (Buffer.zeros 0x100000).write 0 0x40000 image
  let flash256 ← dumpChecksum H flash256 pos { s with biossizeType := 0 }
  let flash1024 ← dumpChecksum H flash1024 pos { s with biossizeType := 1 }
  let flash1024 ← loaderBanks flash1024 start
  let system ← systemBank H flash256 start romsize crom
  let flash1024 ← systemBanks flash1024 start romsize crom system.2
  let flash256 ← writeBiosIdentifier H system.1 0x40000
  let flash1024 ← writeBiosIdentifier H flash1024 0x100000
  pure (flash256, flash1024)

/-- `romcopy`; the two files it writes. -/
def romcopy (H : Hashes) (blbin cromimage : List UInt8) : Option (Buffer × Buffer) := do
  let crom ← (Buffer.zeros 0x100000).write 0 (u32 cromimage.length) (cromimage.getD · 0)
  let _ ← (Buffer.mk 0x40000 (clearedImage blbin)).slice (bootloaderpos blbin) 36
  let payload ← crom.slice 0 (u32 cromimage.length)
  let start := compressedImageStart (bootloaderpos blbin) (bootloaderstruct blbin).sizeRamcopy
  assemble H (clearedImage blbin) (bootloaderpos blbin) start (u32 cromimage.length)
    { bootloaderstruct blbin with
      compressedImageStart := start
      compressedImageSize := u32 cromimage.length } payload

end Cromwell.Image
