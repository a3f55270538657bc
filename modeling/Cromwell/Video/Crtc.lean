/-
Module: Cromwell.Video.Crtc
Layer: Model and proofs
Purpose: `SetGPURegister` of `drivers/video/VideoInitialization.c`, which programs the timing of the graphics chip. The values
  of the CRTC are longer than its registers: their upper bits share three of them, which are written a few bits at a time.
  What the registers say afterwards is what the parameters say, whatever they held before.
Imports: Mathlib
Trusted boundary: reviewed against src/drivers/video/VideoInitialization.c and VideoInitialization.h; human-reviewed
  statement (GpuRegisters.timing)
Main exports: GpuParameter, GpuRegisters, setGPURegister, CrtcTiming, GpuRegisters.timing, setGPURegister_round_trip
-/
import Mathlib

namespace Cromwell.Video

/-- `GPU_PARAMETER` without the kind of the output, which is not looked at. -/
structure GpuParameter where
  xres : BitVec 32
  crtchdispend : BitVec 32
  nvhstart : BitVec 32
  nvhtotal : BitVec 32
  yres : BitVec 32
  nvvstart : BitVec 32
  crtcvstart : BitVec 32
  crtcvtotal : BitVec 32
  nvvtotal : BitVec 32
  pixelDepth : BitVec 32

/-- The registers behind `pbRegs`: the words, by their offsets, and the bytes of the CRTC, by their numbers. -/
structure GpuRegisters where
  words : Nat → BitVec 32
  crtc : Nat → BitVec 8

/-- `*((u32 *)&pbRegs[offset]) = value`. -/
def GpuRegisters.store (pbRegs : GpuRegisters) (offset : Nat) (value : BitVec 32) : GpuRegisters :=
  { pbRegs with words := Function.update pbRegs.words offset value }

/-- `NvGetCrtc`: the number goes to the index port first. -/
def nvGetCrtc (pbRegs : GpuRegisters) (nIndex : Nat) : BitVec 8 := pbRegs.crtc nIndex

/-- `NvSetCrtc`. -/
def nvSetCrtc (pbRegs : GpuRegisters) (nIndex : Nat) (b : BitVec 32) : GpuRegisters :=
  { pbRegs with crtc := Function.update pbRegs.crtc nIndex (b.setWidth 8) }

/-- `(b & mask) | bits` as a byte. -/
def maskByte (b : BitVec 8) (mask bits : BitVec 32) : BitVec 8 := ((b.setWidth 32 &&& mask) ||| bits).setWidth 8

/-- `NvSetCrtc(pbRegs, nIndex, (NvGetCrtc(pbRegs, nIndex) & mask) | bits)`. -/
def nvMaskCrtc (pbRegs : GpuRegisters) (nIndex : Nat) (mask bits : BitVec 32) : GpuRegisters :=
  nvSetCrtc pbRegs nIndex ((maskByte (nvGetCrtc pbRegs nIndex) mask bits).setWidth 32)

section Registers

variable (gpu : GpuParameter) (pbRegs : GpuRegisters)

/-- From `NVHDISPEND` to `CRTC_HDISPEND`. -/
def setHorizontal : GpuRegisters :=
  let pbRegs := pbRegs.store 0x680820 (gpu.crtchdispend - 1)
  let pbRegs := pbRegs.store 0x680824 gpu.nvhtotal
  let pbRegs := pbRegs.store 0x680828 (gpu.xres - 1)
  let pbRegs := pbRegs.store 0x680834 0
  let pbRegs := pbRegs.store 0x68082c gpu.nvhstart
  let pbRegs := pbRegs.store 0x680830 (gpu.nvhstart + 32)
  let pbRegs := pbRegs.store 0x680838 (gpu.xres - 1)
  -- CRTC_HSYNCSTART = h_total - 32 (heuristic)
  let m := gpu.nvhtotal - 32
  let pbRegs := nvSetCrtc pbRegs 4 (m / 8)
  let pbRegs := nvMaskCrtc pbRegs 5 0xe0 (((m + 16) / 8 - 1) &&& 0x1f)
  let pbRegs := nvSetCrtc pbRegs 0 (gpu.nvhtotal.sdiv 8 - 5)
  let pbRegs := nvSetCrtc pbRegs 2 (gpu.crtchdispend.sdiv 8 - 1)
  let pbRegs := nvMaskCrtc pbRegs 3 0xe0 ((gpu.nvhtotal.sdiv 8 - 1) &&& 0x1f)
  let pbRegs := nvMaskCrtc pbRegs 5 (~~~0x80) (((gpu.nvhtotal.sdiv 8 - 1) &&& 0x20) <<< 2)
  let pbRegs := nvMaskCrtc pbRegs 0x17 0x7f 0
  let pbRegs := nvSetCrtc pbRegs 1 (gpu.crtchdispend.sdiv 8 - 1)
  let pbRegs := nvSetCrtc pbRegs 2 (gpu.crtchdispend.sdiv 8 - 1)
  nvMaskCrtc pbRegs 0x17 0x7f 0x80

/-- `CRTC_LINESTRIDE`. -/
def setLineStride : GpuRegisters :=
  let m := gpu.xres.sdiv 8 * gpu.pixelDepth
  let pbRegs := nvMaskCrtc pbRegs 0x19 0x1f ((m >>> 3) &&& 0xe0)
  nvSetCrtc pbRegs 0x13 (m &&& 0xff)

/-- From `NVVDISPEND` to `NVVVALIDEND`. -/
def setVerticalWords : GpuRegisters :=
  let pbRegs := pbRegs.store 0x680800 (gpu.yres - 1)
  let pbRegs := pbRegs.store 0x680804 gpu.nvvtotal
  let pbRegs := pbRegs.store 0x680808 (gpu.yres - 1)
  let pbRegs := pbRegs.store 0x680814 0
  let pbRegs := pbRegs.store 0x68080c gpu.nvvstart
  let pbRegs := pbRegs.store 0x680810 (gpu.nvvstart + 3)
  pbRegs.store 0x680818 (gpu.yres - 1)

/-- From `CRTC_VSYNCSTART` to `CRTC_LINECOMP`. -/
def setVertical : GpuRegisters :=
  let pbRegs := nvMaskCrtc pbRegs 7 0x7b
    ((gpu.crtcvstart.sshiftRight 2 &&& 0x80) ||| (gpu.crtcvstart.sshiftRight 6 &&& 0x04))
  let pbRegs := nvSetCrtc pbRegs 0x10 (gpu.crtcvstart &&& 0xff)
  -- CRTC_VTOTAL
  let pbRegs := nvMaskCrtc pbRegs 7 0xde
    ((gpu.crtcvtotal.sshiftRight 4 &&& 0x20) ||| (gpu.crtcvtotal.sshiftRight 8 &&& 0x01))
  let pbRegs := nvSetCrtc pbRegs 6 (gpu.crtcvtotal &&& 0xff)
  -- CRTC_VBLANKEND = CRTC_VTOTAL
  let pbRegs := nvMaskCrtc pbRegs 0x16 0x80 (gpu.crtcvtotal &&& 0x7f)
  -- CRTC_VDISPEND = yres
  let pbRegs := nvMaskCrtc pbRegs 7 0xbd
    (((gpu.yres - 1).sshiftRight 3 &&& 0x40) ||| ((gpu.yres - 1).sshiftRight 7 &&& 0x02))
  let pbRegs := nvSetCrtc pbRegs 0x12 ((gpu.yres - 1) &&& 0xff)
  -- CRTC_VBLANKSTART
  let pbRegs := nvMaskCrtc pbRegs 9 0xdf ((gpu.yres - 1).sshiftRight 4 &&& 0x20)
  let pbRegs := nvMaskCrtc pbRegs 7 0xf7 ((gpu.yres - 1).sshiftRight 5 &&& 0x08)
  let pbRegs := nvSetCrtc pbRegs 0x15 ((gpu.yres - 1) &&& 0xff)
  -- CRTC_LINECOMP
  let m : BitVec 32 := 0x3ff
  let pbRegs := nvMaskCrtc pbRegs 7 0xef (m >>> 4 &&& 0x10)
  let pbRegs := nvMaskCrtc pbRegs 9 0xbf (m >>> 3 &&& 0x40)
  nvSetCrtc pbRegs 0x18 (m &&& 0xff)

/-- From `CRTC_REPAINT1` on: the overflow bits and the pixel mode. -/
def setOverflow : GpuRegisters :=
  let pbRegs := nvSetCrtc pbRegs 0x1a (if gpu.xres.slt 1280 then 0x04 else 0x00)
  let pbRegs := nvSetCrtc pbRegs 0x25
    (((gpu.nvhtotal.sdiv 8 - 5) &&& 0x040).sshiftRight 2 ||| ((gpu.yres - 1) &&& 0x400).sshiftRight 7 |||
      (gpu.crtcvstart &&& 0x400).sshiftRight 8 ||| ((gpu.yres - 1) &&& 0x400).sshiftRight 9 |||
      (gpu.crtcvtotal &&& 0x400).sshiftRight 10)
  let b := gpu.pixelDepth &&& 0xff
  let b := if b.ult 3 then b else 3
  -- switch pixel mode to TV
  let pbRegs := nvSetCrtc pbRegs 0x28 (b ||| 0x80)
  nvMaskCrtc pbRegs 0x2d 0xe0 (if (gpu.nvhtotal.sdiv 8 - 1).slt 260 then 0x00 else 0x01)

/-- `SetGPURegister`. -/
def setGPURegister : GpuRegisters :=
  setOverflow gpu (setVertical gpu (setVerticalWords gpu (setLineStride gpu (setHorizontal gpu pbRegs))))

end Registers

/-! ### What the registers say -/

/-- A value with its low byte in a register of its own and three bits elsewhere. -/
def splitValue (low : BitVec 8) (bit8 bit9 bit10 : Bool) : Nat :=
  low.toNat + 2 ^ 8 * bit8.toNat + 2 ^ 9 * bit9.toNat + 2 ^ 10 * bit10.toNat

/-- The values of the CRTC. -/
structure CrtcTiming where
  vSyncStart : Nat
  vTotal : Nat
  vDisplayEnd : Nat
  vBlankStart : Nat
  lineStride : Nat
  lineCompare : Nat
deriving DecidableEq, Repr

/-- The values as the chip reads them. -/
def GpuRegisters.timing (pbRegs : GpuRegisters) : CrtcTiming where
  vSyncStart := splitValue (pbRegs.crtc 0x10) ((pbRegs.crtc 7).getLsbD 2) ((pbRegs.crtc 7).getLsbD 7)
    ((pbRegs.crtc 0x25).getLsbD 2)
  vTotal := splitValue (pbRegs.crtc 6) ((pbRegs.crtc 7).getLsbD 0) ((pbRegs.crtc 7).getLsbD 5)
    ((pbRegs.crtc 0x25).getLsbD 0)
  vDisplayEnd := splitValue (pbRegs.crtc 0x12) ((pbRegs.crtc 7).getLsbD 1) ((pbRegs.crtc 7).getLsbD 6)
    ((pbRegs.crtc 0x25).getLsbD 1)
  vBlankStart := splitValue (pbRegs.crtc 0x15) ((pbRegs.crtc 7).getLsbD 3) ((pbRegs.crtc 9).getLsbD 5)
    ((pbRegs.crtc 0x25).getLsbD 3)
  lineStride := splitValue (pbRegs.crtc 0x13) ((pbRegs.crtc 0x19).getLsbD 5) ((pbRegs.crtc 0x19).getLsbD 6)
    ((pbRegs.crtc 0x19).getLsbD 7)
  lineCompare := splitValue (pbRegs.crtc 0x18) ((pbRegs.crtc 7).getLsbD 4) ((pbRegs.crtc 9).getLsbD 6) false

/-! ### Steps -/

section Steps

variable (pbRegs : GpuRegisters)

@[simp]
theorem store_crtc (offset : Nat) (value : BitVec 32) : (pbRegs.store offset value).crtc = pbRegs.crtc := rfl

theorem nvSetCrtc_crtc (nIndex j : Nat) (b : BitVec 32) :
    (nvSetCrtc pbRegs nIndex b).crtc j = if j = nIndex then b.setWidth 8 else pbRegs.crtc j := by
  exact Function.update_apply pbRegs.crtc nIndex (b.setWidth 8) j

theorem nvMaskCrtc_crtc (nIndex j : Nat) (mask bits : BitVec 32) :
    (nvMaskCrtc pbRegs nIndex mask bits).crtc j =
      if j = nIndex then maskByte (pbRegs.crtc nIndex) mask bits else pbRegs.crtc j := by
  rw [nvMaskCrtc, nvSetCrtc_crtc, nvGetCrtc]
  simp

end Steps

theorem getLsbD_maskByte (b : BitVec 8) (mask bits : BitVec 32) {k : Nat} (hk : k < 8) :
    (maskByte b mask bits).getLsbD k = (b.getLsbD k && mask.getLsbD k || bits.getLsbD k) := by
  rw [maskByte, BitVec.getLsbD_setWidth, BitVec.getLsbD_or, BitVec.getLsbD_and, BitVec.getLsbD_setWidth]
  simp [hk, show k < 32 by omega]

/-- A value is put together again from its low byte and its upper bits. -/
theorem splitValue_bits (v : BitVec 32) :
    splitValue (v.setWidth 8) (v.getLsbD 8) (v.getLsbD 9) (v.getLsbD 10) = v.toNat % 2 ^ 11 := by
  have hbit : ∀ k, (v.getLsbD k).toNat = v.toNat / 2 ^ k % 2 := fun k => Nat.toNat_testBit v.toNat k
  rw [splitValue, hbit, hbit, hbit, BitVec.toNat_setWidth]
  omega

theorem and_byte (b : BitVec 8) : b &&& 255#8 = b := BitVec.and_allOnes

/-! ### The registers afterwards -/

section Programmed

variable (gpu : GpuParameter) (pbRegs : GpuRegisters)

/-- The stride, in the upper three bits of a register that keeps its others. -/
theorem setGPURegister_stride :
    (setGPURegister gpu pbRegs).crtc 0x13 = (gpu.xres.sdiv 8 * gpu.pixelDepth).setWidth 8 ∧
      (setGPURegister gpu pbRegs).crtc 0x19 =
        maskByte (pbRegs.crtc 0x19) 0x1f ((gpu.xres.sdiv 8 * gpu.pixelDepth) >>> 3 &&& 0xe0) := by
  constructor
  · simp [setGPURegister, setOverflow, setVertical, setVerticalWords, setLineStride, nvSetCrtc_crtc, nvMaskCrtc_crtc,
      and_byte]
  · simp [setGPURegister, setOverflow, setVertical, setVerticalWords, setLineStride, setHorizontal, nvSetCrtc_crtc,
      nvMaskCrtc_crtc]

/-- The low bytes. -/
theorem setGPURegister_low :
    (setGPURegister gpu pbRegs).crtc 0x10 = gpu.crtcvstart.setWidth 8 ∧
      (setGPURegister gpu pbRegs).crtc 6 = gpu.crtcvtotal.setWidth 8 ∧
      (setGPURegister gpu pbRegs).crtc 0x12 = (gpu.yres - 1).setWidth 8 ∧
      (setGPURegister gpu pbRegs).crtc 0x15 = (gpu.yres - 1).setWidth 8 ∧
      (setGPURegister gpu pbRegs).crtc 0x18 = 0xff := by
  refine ⟨?_, ?_, ?_, ?_, ?_⟩
  all_goals
    simp [setGPURegister, setOverflow, setVertical, nvSetCrtc_crtc, nvMaskCrtc_crtc, and_byte]

/-- The register that five values share, as the writes leave it one after the other. -/
theorem setGPURegister_shared :
    (setGPURegister gpu pbRegs).crtc 7 =
      maskByte (maskByte (maskByte (maskByte (maskByte (pbRegs.crtc 7) 0x7b
          ((gpu.crtcvstart.sshiftRight 2 &&& 0x80) ||| (gpu.crtcvstart.sshiftRight 6 &&& 0x04))) 0xde
          ((gpu.crtcvtotal.sshiftRight 4 &&& 0x20) ||| (gpu.crtcvtotal.sshiftRight 8 &&& 0x01))) 0xbd
          (((gpu.yres - 1).sshiftRight 3 &&& 0x40) ||| ((gpu.yres - 1).sshiftRight 7 &&& 0x02))) 0xf7
          ((gpu.yres - 1).sshiftRight 5 &&& 0x08)) 0xef 0x10 ∧
      (setGPURegister gpu pbRegs).crtc 9 =
        maskByte (maskByte (pbRegs.crtc 9) 0xdf ((gpu.yres - 1).sshiftRight 4 &&& 0x20)) 0xbf 0x40 ∧
      (setGPURegister gpu pbRegs).crtc 0x25 =
        (((gpu.nvhtotal.sdiv 8 - 5) &&& 0x040).sshiftRight 2 ||| ((gpu.yres - 1) &&& 0x400).sshiftRight 7 |||
          (gpu.crtcvstart &&& 0x400).sshiftRight 8 ||| ((gpu.yres - 1) &&& 0x400).sshiftRight 9 |||
          (gpu.crtcvtotal &&& 0x400).sshiftRight 10).setWidth 8 := by
  refine ⟨?_, ?_, ?_⟩
  · simp [setGPURegister, setOverflow, setVertical, setVerticalWords, setLineStride, setHorizontal, nvSetCrtc_crtc,
      nvMaskCrtc_crtc]
  · simp [setGPURegister, setOverflow, setVertical, setVerticalWords, setLineStride, setHorizontal, nvSetCrtc_crtc,
      nvMaskCrtc_crtc]
  · simp only [setGPURegister, setOverflow, nvSetCrtc_crtc, nvMaskCrtc_crtc]
    rfl

/-- Each write of the shared register puts its bits there, and the later ones keep them. -/
theorem shared_bits :
    let b := (setGPURegister gpu pbRegs).crtc 7
    (b.getLsbD 0 = gpu.crtcvtotal.getLsbD 8 ∧ b.getLsbD 5 = gpu.crtcvtotal.getLsbD 9) ∧
      (b.getLsbD 1 = (gpu.yres - 1).getLsbD 8 ∧ b.getLsbD 6 = (gpu.yres - 1).getLsbD 9) ∧
      (b.getLsbD 2 = gpu.crtcvstart.getLsbD 8 ∧ b.getLsbD 7 = gpu.crtcvstart.getLsbD 9) ∧
      b.getLsbD 3 = (gpu.yres - 1).getLsbD 8 ∧ b.getLsbD 4 = true := by
  intro b
  simp only [b, (setGPURegister_shared gpu pbRegs).1]
  refine ⟨⟨?_, ?_⟩, ⟨?_, ?_⟩, ⟨?_, ?_⟩, ?_, ?_⟩
  all_goals
    rw [getLsbD_maskByte _ _ _ (by decide), getLsbD_maskByte _ _ _ (by decide), getLsbD_maskByte _ _ _ (by decide),
      getLsbD_maskByte _ _ _ (by decide), getLsbD_maskByte _ _ _ (by decide)]
    simp [BitVec.getElem_sshiftRight]

/-- The bits of the second shared register. -/
theorem shared_bits_blank :
    let b := (setGPURegister gpu pbRegs).crtc 9
    b.getLsbD 5 = (gpu.yres - 1).getLsbD 9 ∧ b.getLsbD 6 = true := by
  intro b
  simp only [b, (setGPURegister_shared gpu pbRegs).2.1]
  constructor
  all_goals
    rw [getLsbD_maskByte _ _ _ (by decide), getLsbD_maskByte _ _ _ (by decide)]
    simp [BitVec.getElem_sshiftRight]

/-- The overflow bits. -/
theorem overflow_bits :
    let b := (setGPURegister gpu pbRegs).crtc 0x25
    b.getLsbD 0 = gpu.crtcvtotal.getLsbD 10 ∧ b.getLsbD 1 = (gpu.yres - 1).getLsbD 10 ∧
      b.getLsbD 2 = gpu.crtcvstart.getLsbD 10 ∧ b.getLsbD 3 = (gpu.yres - 1).getLsbD 10 := by
  intro b
  simp only [b, (setGPURegister_shared gpu pbRegs).2.2]
  refine ⟨?_, ?_, ?_, ?_⟩
  all_goals
    simp [BitVec.getElem_sshiftRight]

/-- The upper bits of the stride. -/
theorem stride_bits :
    let b := (setGPURegister gpu pbRegs).crtc 0x19
    let m := gpu.xres.sdiv 8 * gpu.pixelDepth
    b.getLsbD 5 = m.getLsbD 8 ∧ b.getLsbD 6 = m.getLsbD 9 ∧ b.getLsbD 7 = m.getLsbD 10 := by
  intro b m
  simp only [b, (setGPURegister_stride gpu pbRegs).2]
  refine ⟨?_, ?_, ?_⟩
  all_goals
    rw [getLsbD_maskByte _ _ _ (by decide)]
    simp [m]

/-- What the registers say: eleven bits of each parameter, whatever they held before. -/
theorem setGPURegister_timing :
    (setGPURegister gpu pbRegs).timing =
      { vSyncStart := gpu.crtcvstart.toNat % 2 ^ 11
        vTotal := gpu.crtcvtotal.toNat % 2 ^ 11
        vDisplayEnd := (gpu.yres - 1).toNat % 2 ^ 11
        vBlankStart := (gpu.yres - 1).toNat % 2 ^ 11
        lineStride := (gpu.xres.sdiv 8 * gpu.pixelDepth).toNat % 2 ^ 11
        lineCompare := 0x3ff } := by
  obtain ⟨hstart, htotal, hend, hblank, hcompare⟩ := setGPURegister_low gpu pbRegs
  obtain ⟨⟨ht8, ht9⟩, ⟨hd8, hd9⟩, ⟨hs8, hs9⟩, hb8, hc8⟩ := shared_bits gpu pbRegs
  obtain ⟨hb9, hc9⟩ := shared_bits_blank gpu pbRegs
  obtain ⟨ht10, hd10, hs10, hb10⟩ := overflow_bits gpu pbRegs
  obtain ⟨hm8, hm9, hm10⟩ := stride_bits gpu pbRegs
  rw [GpuRegisters.timing, hstart, htotal, hend, hblank, hcompare, (setGPURegister_stride gpu pbRegs).1, ht8, ht9, ht10,
    hd8, hd9, hd10, hs8, hs9, hs10, hb8, hb9, hb10, hc8, hc9, hm8, hm9, hm10, splitValue_bits, splitValue_bits,
    splitValue_bits, splitValue_bits]
  rfl

end Programmed

/-! ### The parameters -/

/-- A value of eleven bits, of a computation that may wrap around. -/
theorem toNat_of_bounded {v : BitVec 32} {x : Int} (hv : v.toInt = x.bmod (2 ^ 32)) (h : 0 ≤ x ∧ x < 2 ^ 11) :
    v.toNat % 2 ^ 11 = x.toNat := by
  have hx : x.bmod (2 ^ 32) = x := Int.bmod_eq_of_le (by omega) (by omega)
  have hcond := BitVec.toInt_eq_toNat_cond v
  rw [hv, hx] at hcond
  have hlt := v.isLt
  split at hcond <;> omega

theorem toInt_bmod (v : BitVec 32) : v.toInt = v.toInt.bmod (2 ^ 32) := (BitVec.toInt_bmod_cancel v).symm

/-- The stride in exact arithmetic, or wrapped around. -/
theorem toInt_stride (xres pixelDepth : BitVec 32) :
    (xres.sdiv 8 * pixelDepth).toInt = (xres.toInt.tdiv 8 * pixelDepth.toInt).bmod (2 ^ 32) := by
  have hdiv : (xres.sdiv 8).toInt = xres.toInt.tdiv 8 :=
    BitVec.toInt_sdiv_of_ne_or_ne xres 8 (Or.inr (by decide))
  rw [BitVec.toInt_mul, hdiv]

/-- For all parameters whose values have eleven bits, and all contents of the registers before: the registers say what the
    parameters say. -/
theorem setGPURegister_round_trip (gpu : GpuParameter)
    (hvstart : 0 ≤ gpu.crtcvstart.toInt ∧ gpu.crtcvstart.toInt < 2 ^ 11)
    (hvtotal : 0 ≤ gpu.crtcvtotal.toInt ∧ gpu.crtcvtotal.toInt < 2 ^ 11)
    (hyres : 0 ≤ gpu.yres.toInt - 1 ∧ gpu.yres.toInt - 1 < 2 ^ 11)
    (hstride : 0 ≤ gpu.xres.toInt.tdiv 8 * gpu.pixelDepth.toInt ∧
      gpu.xres.toInt.tdiv 8 * gpu.pixelDepth.toInt < 2 ^ 11) :
    ∀ pbRegs, (setGPURegister gpu pbRegs).timing =
      { vSyncStart := gpu.crtcvstart.toInt.toNat
        vTotal := gpu.crtcvtotal.toInt.toNat
        vDisplayEnd := (gpu.yres.toInt - 1).toNat
        vBlankStart := (gpu.yres.toInt - 1).toNat
        lineStride := (gpu.xres.toInt.tdiv 8 * gpu.pixelDepth.toInt).toNat
        lineCompare := 0x3ff } := by
  intro pbRegs
  have hyresInt : (gpu.yres - 1).toInt = (gpu.yres.toInt - 1).bmod (2 ^ 32) := BitVec.toInt_sub
  rw [setGPURegister_timing, toNat_of_bounded (toInt_bmod gpu.crtcvstart) hvstart,
    toNat_of_bounded (toInt_bmod gpu.crtcvtotal) hvtotal, toNat_of_bounded hyresInt hyres,
    toNat_of_bounded (toInt_stride gpu.xres gpu.pixelDepth) hstride]

/-- 640 by 480 in 32 bits, over registers that are full of ones. -/
theorem setGPURegister_round_trip_vga :
    (setGPURegister ⟨640, 640, 608, 779, 480, 480, 480, 524, 524, 4⟩ ⟨fun _ => 0, fun _ => 0xff⟩).timing =
      ⟨480, 524, 479, 479, 320, 0x3ff⟩ :=
  setGPURegister_round_trip ⟨640, 640, 608, 779, 480, 480, 480, 524, 524, 4⟩ (by decide) (by decide) (by decide)
    (by decide) _

end Cromwell.Video
