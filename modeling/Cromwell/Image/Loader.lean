/-
Module: Cromwell.Image.Loader
Layer: Model
Purpose: `BootStartBiosLoader` of `boot_rom/2bBootStartBios.c`: the check of the loader copied to RAM and the
  search for a good image in the flash banks, up to the call of `decompress_kernel`. Writes to the graphics
  chip, PCI and I2C do not touch the memory that is looked at here.
Imports: Cromwell.BootLibrary, Cromwell.Lib.Buffer
Trusted boundary: reviewed against src/boot_rom/2bBootStartBios.c
Main exports: BootOutcome, flashBank, loadAttempt, bootStartBiosLoader
-/
import Cromwell.BootLibrary
import Cromwell.Lib.Buffer

namespace Cromwell.Image

open ByteMemory
open Cromwell.BootLibrary (memcpy)

/-- `PROGRAMM_Memory_2bl`. -/
def programmMemory2bl : Nat := 0x00100000

/-- `CROMWELL_Memory_pos`. -/
def cromwellMemoryPos : Nat := 0x03A00000

/-- `CROMWELL_compress_temploc`. -/
def cromwellCompressTemploc : Nat := 0x02000000

/-- `Buildinflash_Flash`. -/
def buildinflashFlash (flashbank : Nat) : Nat := 0xfff00000 + flashbank * 0x40000

/-- How the loader ends: it waits to be killed because its own hash is wrong, it gives up, or it calls
    `decompress_kernel(out, data, len)` with the image of a bank. -/
inductive BootOutcome where
  | badLoader
  | noImage
  | decompress (out : Nat) (data : Nat → UInt8) (len flashbank loadretry : Nat)

/-- `memcmp(a, b, 20)==0`. -/
def digestsEqual (a b : Nat → UInt8) : Bool := (List.range 20).all fun i => a i == b i

/-- The bank of an attempt; where the `switch` says nothing the last one is kept. -/
def flashBank (biossizeType loadretry flashbank : Nat) : Nat :=
  if biossizeType = 0 then 3
  else if biossizeType = 1 then
    if loadretry = 0 then 1
    else if loadretry = 25 then 2
    else if loadretry = 50 then 0
    else if loadretry = 75 then 3
    else flashbank
  else flashbank

/-- One attempt: the memory with the image of the bank in RAM, and whether its hash is right. -/
def loadAttempt (sha1 : List UInt8 → Nat → UInt8) (start size flashbank : Nat) (m : Mem) : Mem × Bool :=
  let base := buildinflashFlash flashbank
  let checksum := fun i => m (u32 (base + start) + i)
  let m := memcpy m cromwellCompressTemploc (u32 (base + start + 20)) size
  let m := m.fill (cromwellCompressTemploc + size) (20 * 1024) 0x00
  (m, digestsEqual checksum (sha1 (m.bytesFrom cromwellCompressTemploc size)))

/-- `for (loadretry=0;loadretry<100;loadretry++)`, with the number of attempts that are left. -/
def loadLoop (sha1 : List UInt8 → Nat → UInt8) (start size biossizeType : Nat) :
    Nat → Nat → Nat → Mem → BootOutcome
  | 0, _, _, _ => .noImage
  | left + 1, loadretry, flashbank, m =>
      let flashbank := flashBank biossizeType loadretry flashbank
      let (m, good) := loadAttempt sha1 start size flashbank m
      if good then
        .decompress cromwellMemoryPos (fun i => m (cromwellCompressTemploc + i)) size flashbank loadretry
      else loadLoop sha1 start size biossizeType left (loadretry + 1) flashbank m

/-- `BootStartBiosLoader`. -/
def bootStartBiosLoader (sha1 : List UInt8 → Nat → UInt8) (m : Mem) : BootOutcome :=
  let bootloaderChecksum := fun i => m (programmMemory2bl + i)
  let bootloadersize := m.loadWord (programmMemory2bl + 20)
  let compressedImageStart := m.loadWord (programmMemory2bl + 24)
  let compressedImageSize := m.loadWord (programmMemory2bl + 28)
  let biossizeType := m.loadWord (programmMemory2bl + 32)
  if digestsEqual bootloaderChecksum
      (sha1 (m.bytesFrom (programmMemory2bl + 20) (sub32 bootloadersize 20))) then
    loadLoop sha1 compressedImageStart compressedImageSize biossizeType 100 0 3 m
  else .badLoader

end Cromwell.Image
