/-
Module: Cromwell.Iso.ReadFile
Layer: Proofs
Purpose: What `read_file` does with the limit of its caller. It returns what was asked for and stays below the limit
  exactly when the limit is above the first byte of the size, taken as a signed character, and leaves room for the
  file in whole blocks. Whether `malloc` has a block for it makes no difference.
Imports: Cromwell.Iso.Iso9660
Trusted boundary: discByte, HonoursLimit, wholeBlocks
Main exports: readFileLoop_eq, readFile_mem, readFile_honours_limit_iff
-/
import Cromwell.Iso.Iso9660

namespace Cromwell.Iso

open ByteMemory
open Cromwell.MemoryManager (Heap State memoryManagerStart malloc free malloc_start malloc_below free_below)

/-- Byte `a` of the disc. -/
def discByte (disc : Disc) (a : Nat) : UInt8 :=
  match disc (a / isoBlocksize) with
  | none => 0
  | some bytes => bytes (a % isoBlocksize)

/-- Byte `k` from a sector on, in the order in which the sectors are read. -/
def extentByte (disc : Disc) (extent k : Nat) : UInt8 :=
  match disc (u32 (extent + k / isoBlocksize)) with
  | none => 0
  | some bytes => bytes (k % isoBlocksize)

theorem extentByte_eq_discByte (disc : Disc) {extent k : Nat} (h : extent + k / isoBlocksize < 2 ^ 32) :
    extentByte disc extent k = discByte disc (extent * isoBlocksize + k) := by
  have hdiv : (extent * isoBlocksize + k) / isoBlocksize = extent + k / isoBlocksize := by
    rw [Nat.mul_comm, Nat.mul_add_div (by decide)]
  have hmod : (extent * isoBlocksize + k) % isoBlocksize = k % isoBlocksize := by
    rw [Nat.mul_comm, Nat.mul_add_mod]
  rw [extentByte, discByte, hdiv, hmod, u32_of_lt h]

/-- The bytes of a block; those of one that cannot be read are zeros. -/
theorem extentByte_block (disc : Disc) (extent i : Nat) {k : Nat} (hk : k < isoBlocksize) :
    extentByte disc extent (i * isoBlocksize + k) = ((disc (u32 (extent + i))).getD fun _ => 0) k := by
  have hdiv : (i * isoBlocksize + k) / isoBlocksize = i := by
    rw [Nat.mul_comm, Nat.mul_add_div (by decide), Nat.div_eq_of_lt hk, Nat.add_zero]
  have hmod : (i * isoBlocksize + k) % isoBlocksize = k := by
    rw [Nat.mul_comm, Nat.mul_add_mod, Nat.mod_eq_of_lt hk]
  rw [extentByte, hdiv, hmod]
  cases disc (u32 (extent + i)) with
  | none => rfl
  | some bytes => rfl

/-- A block that is left is copied whole. -/
theorem copyLength_whole {blocks i : Nat} (hi : i < blocks) (hblocks : blocks * isoBlocksize < 2 ^ 32) :
    copyLength (blocks * isoBlocksize) i = isoBlocksize := by
  have hle : (i + 1) * isoBlocksize ≤ blocks * isoBlocksize := Nat.mul_le_mul_right _ hi
  rw [copyLength, u32_of_lt (Nat.lt_of_le_of_lt hle hblocks), if_neg (Nat.not_lt.mpr hle)]

/-- A round of the loop, away from `tmpbuff`. -/
theorem copy_block (disc : Disc) (extent i dest : Nat) {tmpbuff x : Nat} (memory : Mem)
    (hx : ¬ (tmpbuff ≤ x ∧ x < tmpbuff + isoBlocksize)) :
    (match disc (u32 (extent + i)) with
      | none => memory.fill tmpbuff isoBlocksize 0
      | some bytes => (memory.fill tmpbuff isoBlocksize 0).write tmpbuff isoBlocksize bytes).copy dest tmpbuff
        isoBlocksize x =
      memory.write dest isoBlocksize (fun k => extentByte disc extent (i * isoBlocksize + k)) x := by
  have hblock := fun k (hk : k < isoBlocksize) => extentByte_block disc extent i hk
  rw [Mem.copy, Mem.write]
  by_cases hin : dest ≤ x ∧ x < dest + isoBlocksize
  · have hk : x - dest < isoBlocksize := by omega
    rw [if_pos hin, if_pos hin, hblock _ hk]
    cases disc (u32 (extent + i)) with
    | none => exact Mem.fill_of_mem (Nat.le_add_right _ _) (Nat.add_lt_add_left hk _)
    | some bytes => exact Mem.write_of_mem hk
  · rw [if_neg hin, if_neg hin]
    cases disc (u32 (extent + i)) with
    | none => exact Mem.fill_of_not_mem hx
    | some bytes => exact (Mem.write_of_not_mem hx).trans (Mem.fill_of_not_mem hx)

/-- Away from `tmpbuff` the loop copies the blocks one behind the other, and nothing else is written. -/
theorem readFileLoop_eq (disc : Disc) (extent buffer : Nat) {tmpbuff blocks left i : Nat}
    (hleft : i + left = blocks) (hblocks : blocks * isoBlocksize < 2 ^ 32) (memory : Mem) {x : Nat}
    (hx : ¬ (tmpbuff ≤ x ∧ x < tmpbuff + isoBlocksize)) :
    readFileLoop disc (blocks * isoBlocksize) buffer tmpbuff left i (u32 (extent + i)) memory x =
      memory.write (buffer + i * isoBlocksize) (left * isoBlocksize)
        (fun k => extentByte disc extent (i * isoBlocksize + k)) x := by
  induction left generalizing i memory with
  | zero =>
      rw [readFileLoop, Nat.zero_mul, Mem.write_zero]
  | succ left ih =>
      have hnext : u32 (u32 (extent + i) + 1) = u32 (extent + (i + 1)) := by
        rw [u32, u32, u32]
        omega
      have hround := copy_block disc extent i (buffer + i * isoBlocksize) memory hx
      rw [readFileLoop, copyLength_whole (by omega) hblocks, hnext, ih (by omega), Nat.succ_mul i,
        ← Nat.add_assoc buffer, ← Mem.write_block memory _ _ isoBlocksize left (extentByte disc extent)]
      rw [Mem.write, Mem.write]
      split
      case isTrue => rfl
      case isFalse => exact hround

/-- A file in whole blocks, over the naturals. -/
def wholeBlocks (size : Nat) : Nat :=
  if size ≤ isoBlocksize then isoBlocksize else size + (isoBlocksize - size % isoBlocksize)

theorem le_wholeBlocks (size : Nat) : size ≤ wholeBlocks size := by
  rw [wholeBlocks]
  split
  case isTrue hsmall => exact hsmall
  case isFalse => exact Nat.le_add_right _ _

/-- On every disc that can be read and with every heap `read_file` returns the smaller of the size and the limit, fills
    so many bytes of the buffer with those of the file, and copies nothing to or behind the limit. -/
def HonoursLimit (dirRead : IsoDirectoryRecord) (buffer maxBytesToRead : Nat) : Prop :=
  ∀ (disc : Disc) (heap : Heap), (∀ sector, (disc sector).isSome) →
    heap.memoryManagerStartAddress = memoryManagerStart →
    (readFile disc dirRead buffer maxBytesToRead heap).bytesRead = min dirRead.size maxBytesToRead ∧
      (∀ k < min dirRead.size maxBytesToRead,
        (readFile disc dirRead buffer maxBytesToRead heap).heap.mem (buffer + k) =
          discByte disc (dirRead.extent * isoBlocksize + k)) ∧
      ∀ copied ∈ (readFile disc dirRead buffer maxBytesToRead heap).copies, copied.1 + copied.2 ≤ maxBytesToRead

theorem roundUp_eq {size : Nat} (h : wholeBlocks size < 2 ^ 32) :
    roundUp size = wholeBlocks size ∧ wholeBlocks size / isoBlocksize * isoBlocksize = wholeBlocks size := by
  rw [wholeBlocks] at h
  rw [roundUp, wholeBlocks]
  by_cases hsmall : size ≤ isoBlocksize
  · rw [if_pos hsmall, if_pos hsmall]
    exact ⟨rfl, rfl⟩
  · rw [if_neg hsmall] at h
    rw [if_neg hsmall, if_neg hsmall, u32_of_lt h]
    refine ⟨rfl, ?_⟩
    rw [isoBlocksize]
    omega

/-- The size is rounded up to whole blocks. -/
theorem roundUp_whole (readSize : Nat) : roundUp readSize / isoBlocksize * isoBlocksize = roundUp readSize := by
  rw [roundUp]
  split
  case isTrue => rfl
  case isFalse =>
    rw [isoBlocksize, u32]
    omega

theorem roundUp_lt (readSize : Nat) : roundUp readSize < 2 ^ 32 := by
  rw [roundUp]
  split
  case isTrue => decide
  case isFalse => exact Nat.mod_lt _ (by decide)

/-! ### The run -/

variable {dirRead : IsoDirectoryRecord} {buffer maxBytesToRead : Nat}

theorem readFile_bytesRead (disc : Disc) (dirRead : IsoDirectoryRecord) (buffer maxBytesToRead : Nat) (heap : Heap) :
    (readFile disc dirRead buffer maxBytesToRead heap).bytesRead =
      fileReadSize dirRead maxBytesToRead (malloc heap isoBlocksize).2.mem := rfl

theorem readFile_copies (disc : Disc) (dirRead : IsoDirectoryRecord) (buffer maxBytesToRead : Nat) (heap : Heap) :
    (readFile disc dirRead buffer maxBytesToRead heap).copies =
      copiesFrom (roundUp (fileReadSize dirRead maxBytesToRead (malloc heap isoBlocksize).2.mem))
        (roundUp (fileReadSize dirRead maxBytesToRead (malloc heap isoBlocksize).2.mem) / isoBlocksize) 0 := rfl

theorem mem_copiesFrom {blocks left i : Nat} (hleft : i + left = blocks) (hblocks : blocks * isoBlocksize < 2 ^ 32)
    {copied : Nat × Nat} :
    copied ∈ copiesFrom (blocks * isoBlocksize) left i ↔
      ∃ j, i ≤ j ∧ j < blocks ∧ copied = (j * isoBlocksize, isoBlocksize) := by
  induction left generalizing i with
  | zero =>
      simp only [copiesFrom, List.not_mem_nil, false_iff, not_exists]
      omega
  | succ left ih =>
      rw [copiesFrom, copyLength_whole (by omega) hblocks, List.mem_cons, ih (by omega)]
      constructor
      · rintro (rfl | ⟨j, hle, hlt, rfl⟩)
        · exact ⟨i, Nat.le_refl i, by omega, rfl⟩
        · exact ⟨j, Nat.le_of_succ_le hle, hlt, rfl⟩
      · rintro ⟨j, hle, hlt, rfl⟩
        rcases Nat.eq_or_lt_of_le hle with rfl | hless
        · exact Or.inl rfl
        · exact Or.inr ⟨j, hless, hlt, rfl⟩

/-- The copies reach as far as the size in whole blocks. -/
theorem copies_le_iff (readSize limit : Nat) :
    (∀ copied ∈ copiesFrom (roundUp readSize) (roundUp readSize / isoBlocksize) 0, copied.1 + copied.2 ≤ limit) ↔
      roundUp readSize ≤ limit := by
  have hmem := @mem_copiesFrom (roundUp readSize / isoBlocksize) (roundUp readSize / isoBlocksize) 0 (Nat.zero_add _)
    (by rw [roundUp_whole]; exact roundUp_lt readSize)
  have hwhole := roundUp_whole readSize
  rw [hwhole] at hmem
  constructor
  · intro h
    rcases Nat.eq_zero_or_pos (roundUp readSize / isoBlocksize) with hnone | hsome
    · rw [← hwhole, hnone, Nat.zero_mul]
      exact Nat.zero_le _
    · have hlast := h _ (hmem.mpr ⟨roundUp readSize / isoBlocksize - 1, Nat.zero_le _, Nat.sub_lt hsome Nat.one_pos, rfl⟩)
      rw [← hwhole]
      dsimp only at hlast
      rw [Nat.sub_mul, Nat.one_mul, Nat.sub_add_cancel (Nat.le_mul_of_pos_left _ hsome)] at hlast
      exact hlast
  · intro h copied hcopied
    obtain ⟨j, -, hj, rfl⟩ := hmem.mp hcopied
    have hend : (j + 1) * isoBlocksize ≤ roundUp readSize / isoBlocksize * isoBlocksize := Nat.mul_le_mul_right _ hj
    rw [hwhole, Nat.succ_mul] at hend
    exact Nat.le_trans hend h

/-- Where `tmpbuff` may lie. -/
theorem tmpbuff_cases {heap : Heap} (start : heap.memoryManagerStartAddress = memoryManagerStart) :
    (malloc heap isoBlocksize).1 = 0x100 ∨ memoryManagerStart ≤ (malloc heap isoBlocksize).1 := by
  rcases MemoryManager.malloc_cases start isoBlocksize with ⟨-, -, hcall⟩ | ⟨c, -, -, -, hcall⟩
  · exact Or.inl (by rw [hcall])
  · refine Or.inr ?_
    rw [hcall, Nat.add_assoc]
    exact Nat.le_add_right _ _

/-- The memory between the first pages and the arena after `read_file`. -/
theorem readFile_mem (disc : Disc) (dirRead : IsoDirectoryRecord) (buffer maxBytesToRead : Nat) {heap : Heap}
    (start : heap.memoryManagerStartAddress = memoryManagerStart) {x : Nat} (hlow : 0x900 ≤ x)
    (hhigh : x < memoryManagerStart) :
    (readFile disc dirRead buffer maxBytesToRead heap).heap.mem x =
      heap.mem.write buffer (roundUp (fileReadSize dirRead maxBytesToRead (malloc heap isoBlocksize).2.mem))
        (extentByte disc dirRead.extent) x := by
  have hmalloc : (malloc heap isoBlocksize).2.mem x = heap.mem x := malloc_below start _ hhigh (by omega)
  have hstart : (malloc heap isoBlocksize).2.memoryManagerStartAddress = memoryManagerStart :=
    (malloc_start heap isoBlocksize).trans start
  have htmp : ¬ ((malloc heap isoBlocksize).1 ≤ x ∧ x < (malloc heap isoBlocksize).1 + isoBlocksize) := by
    rw [isoBlocksize]
    rcases tmpbuff_cases start with hlow' | hhigh'
    · rw [isoBlocksize] at hlow'
      omega
    · rw [isoBlocksize] at hhigh'
      omega
  have hextent : u32 (dirRead.extent + 0) = dirRead.extent := u32_of_lt (Mem.loadWord_lt _ _)
  rw [readFile]
  dsimp only
  rw [free_below _ (by dsimp only; rw [hstart]; exact hhigh)]
  dsimp only
  generalize fileReadSize dirRead maxBytesToRead (malloc heap isoBlocksize).2.mem = size
  have hloop := readFileLoop_eq disc dirRead.extent buffer (Nat.zero_add (roundUp size / isoBlocksize))
    (by rw [roundUp_whole]; exact roundUp_lt size) (malloc heap isoBlocksize).2.mem htmp
  rw [roundUp_whole, hextent, Nat.zero_mul, Nat.add_zero] at hloop
  simp only [Nat.zero_add] at hloop
  rw [hloop, Mem.write, Mem.write, hmalloc]

/-! ### The limit -/

/-- The size in whole blocks, when the count of blocks has wrapped. -/
theorem roundUp_of_wrap {size : Nat} (hsize : size < 2 ^ 32) (hwrap : ¬ wholeBlocks size < 2 ^ 32) :
    roundUp size = 0 ∧ 0 < size := by
  rw [wholeBlocks] at hwrap
  rw [roundUp]
  split at hwrap
  case isTrue hsmall => exact absurd (by decide) hwrap
  case isFalse hlarge =>
    rw [if_neg hlarge, u32]
    rw [isoBlocksize] at hwrap hlarge ⊢
    omega

/-- A heap without blocks, over a memory of equal bytes. -/
def freshHeap (v : UInt8) : Heap := (State.initial fun _ => v).heap

/-- A heap without a free cluster. -/
def fullHeap (v : UInt8) : Heap := ⟨fun _ => v, memoryManagerStart⟩

theorem malloc_freshHeap (v : UInt8) {x : Nat} (hx : x < memoryManagerStart) :
    (malloc (freshHeap v) isoBlocksize).2.mem x = v := by
  have hrun : MemoryManager.FreeRun (freshHeap v) 1
      (MemoryManager.clusterCount (MemoryManager.paddedSize isoBlocksize)) := by
    intro i hi
    have hone : MemoryManager.clusterCount (MemoryManager.paddedSize isoBlocksize) = 1 := by decide
    rw [hone] at hi
    have hbyte := MemoryManager.initial_memsmall (fun _ => v) (show 1 + i < 0x4000 by omega)
    rw [if_neg (by omega)] at hbyte
    exact hbyte
  have hbelow : (freshHeap v).mem x = v := by
    have hfill : ((Mem.fill (fun _ => v) memoryManagerStart 0x4000 0).store memoryManagerStart 0xff) x = v := by
      rw [Mem.store_of_ne (Nat.ne_of_lt hx), Mem.fill_of_not_mem fun hin => absurd hin.1 (Nat.not_le.mpr hx)]
    exact hfill
  rcases MemoryManager.malloc_cases (show (freshHeap v).memoryManagerStartAddress = memoryManagerStart from rfl)
    isoBlocksize with ⟨-, hlarge | hnone, -⟩ | ⟨c, -, hfit, -, hcall⟩
  · exact absurd hlarge (by decide)
  · exact absurd hrun (MemoryManager.firstFit_eq_none.mp hnone 1 (Nat.le_refl 1) (by decide))
  · rw [hcall]
    exact (MemoryManager.writeHeader_claim_below rfl (MemoryManager.firstFit_eq_some.mp hfit).2.1 _ hx).trans hbelow

theorem malloc_fullHeap {v : UInt8} (hv : v ≠ 0) {x : Nat} (hx : 0x100 ≤ x) :
    (malloc (fullHeap v) isoBlocksize).2.mem x = v := by
  rcases MemoryManager.malloc_cases (show (fullHeap v).memoryManagerStartAddress = memoryManagerStart from rfl)
    isoBlocksize with ⟨-, -, hcall⟩ | ⟨c, -, hfit, -, -⟩
  · rw [hcall]
    exact MemoryManager.writeHeader_zero_mem (fullHeap v) (by omega)
  · obtain ⟨-, -, hrun, -⟩ := MemoryManager.firstFit_eq_some.mp hfit
    exact absurd (hrun 0 (by decide)) hv

/-- A limit that is not above the first byte of the size is used as an address. -/
theorem not_honoursLimit_of_char (hchar : ¬ charToUnsigned (dirRead 10) < maxBytesToRead) :
    ¬ HonoursLimit dirRead buffer maxBytesToRead := by
  intro h
  have hword : ∀ (v : UInt8) (heap : Heap), heap.memoryManagerStartAddress = memoryManagerStart →
      (∀ x, maxBytesToRead ≤ x → x < maxBytesToRead + 4 → (malloc heap isoBlocksize).2.mem x = v) →
      min dirRead.size maxBytesToRead = Mem.loadWord (fun _ => v) 0 := by
    intro v heap start hbytes
    obtain ⟨hcount, -⟩ := h (fun _ => some fun _ => 0) heap (fun _ => rfl) start
    rw [readFile_bytesRead, fileReadSize, if_neg hchar] at hcount
    have hconst : (malloc heap isoBlocksize).2.mem.loadWord maxBytesToRead = Mem.loadWord (fun _ => v) maxBytesToRead :=
      Mem.loadWord_congr fun x lo hi => hbytes x lo hi
    rw [← hcount, hconst]
    rfl
  by_cases hlimit : maxBytesToRead + 4 ≤ memoryManagerStart
  · have hzero := hword 0 (freshHeap 0) rfl fun x lo hi => malloc_freshHeap 0 (by omega)
    have hone := hword 1 (freshHeap 1) rfl fun x lo hi => malloc_freshHeap 1 (by omega)
    rw [hzero] at hone
    exact absurd hone (by decide)
  · rw [memoryManagerStart] at hlimit
    have hone := hword 1 (fullHeap 1) rfl fun x lo hi => malloc_fullHeap (by decide) (by omega)
    have htwo := hword 2 (fullHeap 2) rfl fun x lo hi => malloc_fullHeap (by decide) (by omega)
    rw [hone] at htwo
    exact absurd htwo (by decide)

/-- Behind the comparison the whole file is copied. -/
theorem fileReadSize_of_char (hchar : charToUnsigned (dirRead 10) < maxBytesToRead) (memory : Mem) :
    fileReadSize dirRead maxBytesToRead memory = dirRead.size := by
  rw [fileReadSize, if_pos hchar]

/-- What is delivered is a matter of the sectors with 32-bit numbers. -/
theorem readFile_congr {disc disc' : Disc} (hsame : ∀ sector < 2 ^ 32, disc sector = disc' sector)
    (dirRead : IsoDirectoryRecord) (buffer maxBytesToRead : Nat) (heap : Heap) :
    readFile disc dirRead buffer maxBytesToRead heap = readFile disc' dirRead buffer maxBytesToRead heap := by
  have hloop : ∀ (readSize tmpbuff left i offset : Nat) (memory : Mem), offset < 2 ^ 32 →
      readFileLoop disc readSize buffer tmpbuff left i offset memory =
        readFileLoop disc' readSize buffer tmpbuff left i offset memory := by
    intro readSize tmpbuff left
    induction left with
    | zero => exact fun _ _ _ _ => rfl
    | succ left ih =>
        intro i offset memory hoffset
        have hnext : u32 (offset + 1) < 2 ^ 32 := Nat.mod_lt _ (by decide)
        rw [readFileLoop, readFileLoop, hsame offset hoffset, ih _ _ _ hnext]
  have hextent : dirRead.extent < 2 ^ 32 := Mem.loadWord_lt _ _
  rw [readFile, readFile]
  dsimp only
  rw [hloop _ _ _ _ _ _ hextent]

/-- No block, and nothing is copied. -/
theorem readFile_of_wrap {heap : Heap}
    (h : roundUp (fileReadSize dirRead maxBytesToRead (malloc heap isoBlocksize).2.mem) = 0) (disc : Disc) :
    (readFile disc dirRead buffer maxBytesToRead heap).heap =
      free (malloc heap isoBlocksize).2 (malloc heap isoBlocksize).1 := by
  rw [readFile]
  dsimp only
  rw [h]
  rfl

theorem HonoursLimit.size_le (h : HonoursLimit dirRead buffer maxBytesToRead)
    (hchar : charToUnsigned (dirRead 10) < maxBytesToRead) : min dirRead.size maxBytesToRead = dirRead.size := by
  obtain ⟨hcount, -⟩ := h (fun _ => some fun _ => 0) (freshHeap 0) (fun _ => rfl) rfl
  rw [readFile_bytesRead, fileReadSize_of_char hchar] at hcount
  exact hcount.symm

/-- The whole blocks of the file end below the limit. -/
theorem HonoursLimit.wholeBlocks_le (h : HonoursLimit dirRead buffer maxBytesToRead)
    (hchar : charToUnsigned (dirRead 10) < maxBytesToRead) : wholeBlocks dirRead.size ≤ maxBytesToRead := by
  have hsize : dirRead.size < 2 ^ 32 := Mem.loadWord_lt _ _
  by_cases hwrap : wholeBlocks dirRead.size < 2 ^ 32
  · obtain ⟨-, -, hcopies⟩ := h (fun _ => some fun _ => 0) (freshHeap 0) (fun _ => rfl) rfl
    rw [readFile_copies, fileReadSize_of_char hchar, copies_le_iff, (roundUp_eq hwrap).1] at hcopies
    exact hcopies
  · -- The count of blocks has wrapped to zero, and what is delivered is no matter of the disc.
    obtain ⟨hround, hpos⟩ := roundUp_of_wrap hsize hwrap
    have hnone : roundUp (fileReadSize dirRead maxBytesToRead (malloc (freshHeap 0) isoBlocksize).2.mem) = 0 := by
      rw [fileReadSize_of_char hchar, hround]
    have hfirst : ∀ v : UInt8,
        (free (malloc (freshHeap 0) isoBlocksize).2 (malloc (freshHeap 0) isoBlocksize).1).mem buffer = v := by
      intro v
      obtain ⟨-, hbytes, -⟩ := h (fun _ => some fun _ => v) (freshHeap 0) (fun _ => rfl) rfl
      have hbyte := hbytes 0 (by rw [h.size_le hchar]; exact hpos)
      rw [readFile_of_wrap hnone, Nat.add_zero] at hbyte
      exact hbyte
    exact absurd ((hfirst 0).symm.trans (hfirst 1)) (by decide)

/-- The sectors of the file have numbers. -/
theorem HonoursLimit.numbers (h : HonoursLimit dirRead buffer maxBytesToRead)
    (hchar : charToUnsigned (dirRead 10) < maxBytesToRead) (hpos : 0 < dirRead.size) :
    dirRead.extent + (dirRead.size - 1) / isoBlocksize < 2 ^ 32 := by
  by_contra hwrap
  have hlast : ∀ v : UInt8,
      (readFile (fun _ => some fun _ => 0) dirRead buffer maxBytesToRead (freshHeap 0)).heap.mem
        (buffer + (dirRead.size - 1)) = v := by
    intro v
    have hcongr := @readFile_congr (fun _ => some fun _ => 0) (fun sector => some fun _ => if sector < 2 ^ 32 then 0 else v)
      (fun sector hsector => by rw [if_pos hsector]) dirRead buffer maxBytesToRead (freshHeap 0)
    obtain ⟨-, hbytes, -⟩ := h (fun sector => some fun _ => if sector < 2 ^ 32 then 0 else v) (freshHeap 0)
      (fun _ => rfl) rfl
    have hbyte := hbytes (dirRead.size - 1) (by rw [h.size_le hchar]; omega)
    have hhigh : ¬ (dirRead.extent * isoBlocksize + (dirRead.size - 1)) / isoBlocksize < 2 ^ 32 := by
      rw [Nat.mul_comm, Nat.mul_add_div (by decide)]
      exact hwrap
    rw [hcongr, hbyte, discByte]
    dsimp only
    exact if_neg hhigh
  exact absurd ((hlast 0).symm.trans (hlast 1)) (by decide)

/-- `read_file` honours the limit of its caller, for a buffer between the first pages and the arena, exactly when the
    limit is above the first byte of the size as a signed character, whole blocks of the file fit below the limit, and
    the sectors of the file have numbers. -/
theorem readFile_honours_limit_iff (dirRead : IsoDirectoryRecord) {buffer maxBytesToRead : Nat}
    (hmax : maxBytesToRead < 2 ^ 32) (hlow : 0x900 ≤ buffer)
    (hhigh : buffer + min (wholeBlocks dirRead.size) maxBytesToRead ≤ memoryManagerStart) :
    HonoursLimit dirRead buffer maxBytesToRead ↔
      charToUnsigned (dirRead 10) < maxBytesToRead ∧ wholeBlocks dirRead.size ≤ maxBytesToRead ∧
        (dirRead.size = 0 ∨ dirRead.extent + (dirRead.size - 1) / isoBlocksize < 2 ^ 32) := by
  have hcover := le_wholeBlocks dirRead.size
  constructor
  · intro h
    have hchar : charToUnsigned (dirRead 10) < maxBytesToRead := by
      by_contra hchar
      exact not_honoursLimit_of_char hchar h
    refine ⟨hchar, h.wholeBlocks_le hchar, ?_⟩
    rcases Nat.eq_zero_or_pos dirRead.size with hzero | hpos
    · exact Or.inl hzero
    · exact Or.inr (h.numbers hchar hpos)
  · rintro ⟨hchar, hblocks, hnumbers⟩ disc heap hread start
    have hmin : min dirRead.size maxBytesToRead = dirRead.size := Nat.min_eq_left (Nat.le_trans hcover hblocks)
    obtain ⟨hround, -⟩ := roundUp_eq (Nat.lt_of_le_of_lt hblocks hmax)
    rw [Nat.min_eq_left hblocks] at hhigh
    refine ⟨?_, fun k hk => ?_, ?_⟩
    · rw [readFile_bytesRead, fileReadSize_of_char hchar, hmin]
    · rw [hmin] at hk
      rw [readFile_mem disc dirRead buffer maxBytesToRead start (by omega) (by omega), fileReadSize_of_char hchar, hround,
        Mem.write_of_mem (by omega)]
      apply extentByte_eq_discByte
      rw [isoBlocksize] at hnumbers ⊢
      omega
    · rw [readFile_copies, fileReadSize_of_char hchar, copies_le_iff, hround]
      exact hblocks

/-- The record of a file of so many bytes at sector 20. -/
def fileRecord (size : UInt8) : IsoDirectoryRecord := fun i => if i = 2 then 20 else if i = 10 then size else 0

/-- A file of 100 bytes is read to the place of a RAM disk with a limit of 2048, whatever the heap. -/
theorem readFile_honours_limit_iff_small : HonoursLimit (fileRecord 100) 0x900000 0x800 :=
  (readFile_honours_limit_iff (fileRecord 100) (by decide) (by decide) (by decide +kernel)).mpr
    ⟨by decide +kernel, by decide +kernel, Or.inr (by decide +kernel)⟩

/-- A file of 128 bytes, read with a limit of 2048. -/
theorem limit_is_dereferenced : ¬ HonoursLimit (fileRecord 0x80) 0x900000 0x800 :=
  not_honoursLimit_of_char (by decide +kernel)

end Cromwell.Iso
