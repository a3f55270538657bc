/-
Module: Cromwell.Image.Limits
Layer: Proofs
Purpose: What limits the images that `romcopy` can build. It makes no check: the lengths of its `memset` calls wrap when
  the loader or the packed system is too long, and a copy then leaves its buffer.
Imports: Cromwell.Image.Agreement
Trusted boundary: human-reviewed statement (HoldsPayload, BuildsSoundly, Buildable)
Main exports: romcopy_builds_iff
-/
import Cromwell.Image.Agreement

namespace Cromwell.Image

open ByteMemory

/-- The whole payload stands behind its hash in a bank, below the top 512 bytes of the bank. -/
structure HoldsPayload (H : Hashes) (image : Mem) (bank start : Nat) (payload : List UInt8) : Prop where
  below : start + 20 + payload.length ≤ 0x40000 - 512
  carries : Carries H image (bank + start) payload.length (payload.getD · 0)

/-- All accesses stay inside the buffers, and both images hold the whole payload. -/
def BuildsSoundly (H : Hashes) (blbin cromimage : List UInt8) : Prop :=
  ∃ f g, romcopy H blbin cromimage = some (⟨0x40000, f⟩, ⟨0x100000, g⟩) ∧
    ∃ start, HoldsPayload H f 0 start cromimage ∧ HoldsPayload H g 0x40000 start cromimage ∧
      HoldsPayload H g 0x80000 start cromimage

/-! ### What a run that succeeds says -/

variable {H : Hashes} {blbin cromimage : List UInt8}

/-- The hashed part of the loader: a size below 20 wraps. -/
theorem dumpChecksum_some {flash flash' : Buffer} {pos : Nat} {s : Checksumstruct}
    (h : dumpChecksum H flash pos s = some flash') (hpos : pos + 36 ≤ 0x40000) (hsize : flash.size = 0x40000)
    (hram : s.sizeRamcopy < 2 ^ 32) :
    20 ≤ s.sizeRamcopy ∧ pos + s.sizeRamcopy ≤ 0x40000 ∧ flash'.size = 0x40000 := by
  simp only [dumpChecksum, Option.bind_eq_bind, Option.bind_eq_some_iff] at h
  obtain ⟨first, hfirst, hashed, hhashed, hlast⟩ := h
  obtain ⟨-, rfl⟩ := Buffer.write_eq_some.mp hfirst
  obtain ⟨hslice, -⟩ := Buffer.slice_eq_some.mp hhashed
  obtain ⟨-, rfl⟩ := Buffer.write_eq_some.mp hlast
  dsimp only at hslice ⊢
  rw [hsize, u32_of_lt (show pos + 20 < 2 ^ 32 by omega), sub32, u32] at hslice
  exact ⟨by omega, by omega, hsize⟩

/-- Behind the packed system the length of the `memset` wraps when there is no room for it. -/
theorem systemBank_some {flash : Buffer} {start romsize : Nat} {crom : Nat → UInt8}
    {result : Buffer × (Nat → UInt8)} (hsize : flash.size = 0x40000) (hsum : start + 20 + romsize < 2 ^ 31)
    (h : systemBank H flash start romsize crom = some result) : start + 20 + romsize ≤ 0x3fe00 := by
  simp only [systemBank, Option.bind_eq_bind, Option.bind_eq_some_iff] at h
  obtain ⟨first, hfirst, -⟩ := h
  obtain ⟨hle, -⟩ := Buffer.fill_eq_some.mp hfirst
  rw [hsize, u32_of_lt (show start + 20 + romsize < 2 ^ 32 by omega), sub32, sub32, u32, u32] at hle
  omega

/-- The two banks of the loader and the system behind it. -/
theorem assemble_some {image : Mem} {pos start n : Nat} {s : Checksumstruct} {payload : Nat → UInt8}
    {result : Buffer × Buffer} (h : assemble H image pos start n s payload = some result)
    (hpos : pos + 36 ≤ 0x40000) (hram : s.sizeRamcopy < 2 ^ 32) :
    20 ≤ s.sizeRamcopy ∧ pos + s.sizeRamcopy ≤ 0x40000 ∧
      (start + 20 + n < 2 ^ 31 → start + 20 + n ≤ 0x3fe00) := by
  simp only [assemble, Option.bind_eq_bind, Option.bind_eq_some_iff] at h
  obtain ⟨flash256, hflash, flash1024, -, dumped, hdump, dumped', -, banks, -, system, hsystem, -⟩ := h
  have hsize : flash256.size = 0x40000 := Buffer.size_of_write hflash
  obtain ⟨hashed, hloader, hsize'⟩ := dumpChecksum_some hdump hpos hsize hram
  exact ⟨hashed, hloader, fun hsum => systemBank_some hsize' hsum hsystem⟩

/-- A run that comes to its end stayed inside, and its packed system fits. -/
theorem romcopy_some {result : Buffer × Buffer} (h : romcopy H blbin cromimage = some result) :
    bootloaderpos blbin + 36 ≤ 0x40000 ∧ 20 ≤ (bootloaderstruct blbin).sizeRamcopy ∧
      bootloaderpos blbin + (bootloaderstruct blbin).sizeRamcopy ≤ 0x40000 ∧
      compressedImageStart (bootloaderpos blbin) (bootloaderstruct blbin).sizeRamcopy + 20 + u32 cromimage.length ≤
        0x3fe00 := by
  rw [romcopy] at h
  simp only [Option.bind_eq_bind, Option.bind_eq_some_iff] at h
  obtain ⟨crom, hcrom, header, hheader, payload, -, hassemble⟩ := h
  have hpos : bootloaderpos blbin + 36 ≤ 0x40000 := (Buffer.slice_eq_some.mp hheader).1
  have hrom : 0 + u32 cromimage.length ≤ 0x100000 := (Buffer.write_eq_some.mp hcrom).1
  have hram : (bootloaderstruct blbin).sizeRamcopy < 2 ^ 32 := by
    rw [bootloaderstruct, Checksumstruct.load]
    exact Mem.loadWord_lt _ _
  obtain ⟨hashed, hloader, hsystem⟩ := assemble_some hassemble hpos hram
  have hsum : bootloaderpos blbin + (bootloaderstruct blbin).sizeRamcopy ≤ 0x40000 := hloader
  refine ⟨hpos, hashed, hsum, ?_⟩
  apply hsystem
  rw [compressedImageStart_eq (by omega)]
  omega

/-! ### The images -/

/-- For every loader file and every packed system: `romcopy` stays inside its buffers and both images hold the whole
    packed system exactly when the loader file and the system have the room that it never checks. -/
theorem romcopy_builds_iff (H : Hashes) (blbin cromimage : List UInt8) :
    BuildsSoundly H blbin cromimage ↔ Buildable blbin cromimage := by
  constructor
  · rintro ⟨f, g, hrun, start, hfirst, -, -⟩
    obtain ⟨hheader, hashed, hloader, hfits⟩ := romcopy_some hrun
    have hbelow := hfirst.below
    rw [u32_of_lt (by omega)] at hfits
    exact ⟨hheader, hashed, hloader, hfits⟩
  · intro ok
    obtain ⟨f, g, hrun, hf, hg⟩ := romcopy_spec H ok
    refine ⟨f, g, hrun, _, ⟨ok.fits, ?_⟩, ⟨ok.fits, hg.system1⟩, ⟨ok.fits, hg.system2⟩⟩
    rw [Nat.zero_add]
    exact hf.system

/-- A packed system of 256K is not rejected: the run leaves the buffer of the 256K image. -/
theorem large_rom_leaves_buffer :
    romcopy sumHashes smallLoader (List.replicate 0x40000 0) = none ∧
      ¬ BuildsSoundly sumHashes smallLoader (List.replicate 0x40000 0) := by
  have hnone : romcopy sumHashes smallLoader (List.replicate 0x40000 0) = none := by
    refine Option.eq_none_iff_forall_ne_some.mpr fun result hrun => ?_
    obtain ⟨-, -, -, hfits⟩ := romcopy_some hrun
    rw [List.length_replicate, u32_of_lt (by decide)] at hfits
    omega
  refine ⟨hnone, ?_⟩
  rintro ⟨f, g, hrun, -⟩
  rw [hnone] at hrun
  cases hrun

end Cromwell.Image
