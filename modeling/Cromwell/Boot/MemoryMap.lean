/-
Module: Cromwell.Boot.MemoryMap
Layer: Proofs
Purpose: When the loaders store only into the areas of the memory map that are theirs. The sizes of the files decide, of a
  kernel also the byte with the size of its setup code, and of a text the search for the value of its last line.
Imports: Cromwell.Boot.LoadLinux, Cromwell.Config.Bounds
Trusted boundary: human-reviewed statement (InMap, RespectsMap, ConfigRespectsMap)
Main exports: InMap, RespectsMap, HeaderFits, ConfigFits, KernelFits, loaders_respect_map_iff
-/
import Cromwell.Boot.LoadLinux
import Cromwell.Config.Bounds

namespace Cromwell.Boot

open ByteMemory
open BootLibrary
open Cromwell.Config (CONFIGENTRY parseConfig configLines TrimsTail lastFault tailOf parseConfig_store_iff)
open Cromwell.Iso (Disc IsoDirectoryRecord isoBlocksize fileReadSize roundUp roundUp_whole roundUp_lt wholeBlocks
  le_wholeBlocks extentByte toInt)

/-! ### The areas -/

/-- The areas for the setup code, the kernel and the initrd. -/
def InMap (x : Nat) : Prop :=
  (kernelSetup ≤ x ∧ x < gdtLoc) ∨ (kernelPmCode ≤ x ∧ x < kernelPmCodeEnd) ∨ (initrdStart ≤ x ∧ x < maxInitrdEnd)

/-- All bytes from an address on are in an area. -/
def RangeInMap (address length : Nat) : Prop := ∀ x, address ≤ x → x < address + length → InMap x

theorem rangeInMap_setup {length : Nat} : RangeInMap kernelSetup length ↔ length ≤ gdtLoc - kernelSetup := by
  unfold RangeInMap InMap kernelSetup gdtLoc kernelPmCode kernelPmCodeEnd initrdStart maxInitrdEnd kernelPmCodeEnd
  refine ⟨fun h => ?_, fun h x lo hi => Or.inl ⟨lo, by omega⟩⟩
  by_contra hlong
  have hgdt := h 0xA0000 (by decide) (by omega)
  omega

theorem rangeInMap_kernel {length : Nat} : RangeInMap kernelPmCode length ↔ length ≤ maxInitrdEnd - kernelPmCode := by
  unfold RangeInMap InMap kernelSetup gdtLoc kernelPmCode kernelPmCodeEnd initrdStart maxInitrdEnd kernelPmCodeEnd
  refine ⟨fun h => ?_, fun h x lo hi => Or.inr (by omega)⟩
  by_contra hlong
  have harena := h 0x02A00000 (by decide) (by omega)
  omega

theorem rangeInMap_initrd {length : Nat} : RangeInMap initrdStart length ↔ length ≤ maxInitrdSize := by
  unfold RangeInMap InMap maxInitrdSize kernelSetup gdtLoc kernelPmCode kernelPmCodeEnd initrdStart maxInitrdEnd
    kernelPmCodeEnd
  refine ⟨fun h => ?_, fun h x lo hi => Or.inr (Or.inr ⟨lo, by omega⟩)⟩
  by_contra hlong
  have harena := h 0x02A00000 (by decide) (by omega)
  omega

/-! ### Runs that respect the map -/

/-- What an event stores is in the areas. -/
def Event.InMap : Event → Prop
  | .store address length => RangeInMap address length
  | .copy dest _ length => RangeInMap dest length
  | .memPlaceKernel _ => True
  | .exittoLinux _ => True
  | .bootReflashAndReset _ => True

/-- All stores are in the areas, and where a kernel is placed, what is copied is what was loaded, and no more. -/
def RespectsMap (events : List Event) : Prop :=
  (∀ e ∈ events, e.InMap) ∧
    ∀ kernelSize, .memPlaceKernel kernelSize ∈ events →
      ∀ x, (∃ dest src length, .copy dest src length ∈ events ∧ src ≤ x ∧ x < src + length) ↔
        initrdStart ≤ x ∧ x < initrdStart + kernelSize

theorem respectsMap_nil : RespectsMap [] := ⟨nofun, nofun⟩

theorem respectsMap_store {address length : Nat} {events : List Event} :
    RespectsMap (.store address length :: events) ↔ RangeInMap address length ∧ RespectsMap events := by
  simp [RespectsMap, Event.InMap, and_assoc]

theorem rangeInMap_one {address : Nat} : RangeInMap address 1 ↔ InMap address := by
  constructor
  · intro h
    exact h address (Nat.le_refl _) (Nat.lt_succ_self _)
  · intro h x lo hi
    obtain rfl : x = address := by omega
    exact h

/-- The bytes that grub stores. -/
theorem respectsMap_grubRead (m : Machine) (file : GrubFile) (buf len : Nat) :
    RespectsMap (m.grubRead file buf len).events ↔
      (∀ i, (file.stored len i).isSome → InMap (buf + i)) ∧ RespectsMap m.events := by
  have hstores : ∀ offsets : List Nat, RespectsMap (offsets.map (fun i => Event.store (buf + i) 1) ++ m.events) ↔
      (∀ i ∈ offsets, InMap (buf + i)) ∧ RespectsMap m.events := by
    intro offsets
    induction offsets with
    | nil => exact (and_iff_right (List.forall_mem_nil _)).symm
    | cons i offsets ih =>
        rw [List.map_cons, List.cons_append, respectsMap_store, rangeInMap_one, ih, List.forall_mem_cons, and_assoc]
  refine (hstores (file.offsets len)).trans (and_congr_left' ?_)
  exact forall_congr' fun i => imp_congr_left file.mem_offsets

/-- What the two copies of a kernel read. -/
theorem copied_iff {events : List Event} (h : ∀ e ∈ events, ∃ address length, e = .store address length)
    {kernelSize nSizeHeader rest : Nat} (x : Nat) :
    (∃ dest src length, .copy dest src length ∈
        (.copy kernelPmCode (initrdStart + nSizeHeader) rest :: .copy kernelSetup initrdStart nSizeHeader ::
          .memPlaceKernel kernelSize :: events) ∧ src ≤ x ∧ x < src + length) ↔
      initrdStart ≤ x ∧ x < initrdStart + (nSizeHeader + rest) := by
  constructor
  · rintro ⟨dest, src, length, hmem, lo, hi⟩
    rcases List.mem_cons.mp hmem with heq | hmem
    · cases heq
      omega
    rcases List.mem_cons.mp hmem with heq | hmem
    · cases heq
      omega
    rcases List.mem_cons.mp hmem with heq | hmem
    · cases heq
    · obtain ⟨_, _, hstore⟩ := h _ hmem
      cases hstore
  · rintro ⟨lo, hi⟩
    by_cases hheader : x < initrdStart + nSizeHeader
    · exact ⟨_, _, _, List.mem_cons_of_mem _ List.mem_cons_self, lo, hheader⟩
    · exact ⟨_, _, _, List.mem_cons_self, by omega, by omega⟩

/-- A kernel that is placed after stores. -/
theorem respectsMap_place {events : List Event} (h : ∀ e ∈ events, ∃ address length, e = .store address length)
    {kernelSize nSizeHeader : Nat} (hsize : kernelSize < 2 ^ 32) (hheader : nSizeHeader < 2 ^ 32) :
    RespectsMap (.copy kernelPmCode (initrdStart + nSizeHeader) (sub32 kernelSize nSizeHeader) ::
        .copy kernelSetup initrdStart nSizeHeader :: .memPlaceKernel kernelSize :: events) ↔
      nSizeHeader ≤ kernelSize ∧ nSizeHeader ≤ gdtLoc - kernelSetup ∧
        kernelSize - nSizeHeader ≤ maxInitrdEnd - kernelPmCode ∧ RespectsMap events := by
  have hevents : RespectsMap events ↔ ∀ e ∈ events, e.InMap := by
    refine and_iff_left fun size hmem => ?_
    obtain ⟨_, _, hstore⟩ := h _ hmem
    cases hstore
  have hstored : (∀ e ∈ (.copy kernelPmCode (initrdStart + nSizeHeader) (sub32 kernelSize nSizeHeader) ::
      .copy kernelSetup initrdStart nSizeHeader :: .memPlaceKernel kernelSize :: events : List Event), e.InMap) ↔
        RangeInMap kernelPmCode (sub32 kernelSize nSizeHeader) ∧ RangeInMap kernelSetup nSizeHeader ∧
          ∀ e ∈ events, e.InMap := by
    simp [Event.InMap]
  have hplaced : (∀ size, .memPlaceKernel size ∈
      (.copy kernelPmCode (initrdStart + nSizeHeader) (sub32 kernelSize nSizeHeader) ::
        .copy kernelSetup initrdStart nSizeHeader :: .memPlaceKernel kernelSize :: events : List Event) →
      ∀ x, (initrdStart ≤ x ∧ x < initrdStart + (nSizeHeader + sub32 kernelSize nSizeHeader)) ↔
        initrdStart ≤ x ∧ x < initrdStart + size) ↔ nSizeHeader ≤ kernelSize := by
    have hsub : sub32 kernelSize nSizeHeader =
        if nSizeHeader ≤ kernelSize then kernelSize - nSizeHeader else kernelSize + 2 ^ 32 - nSizeHeader := by
      rw [sub32, u32]
      split
      case isTrue => omega
      case isFalse => omega
    constructor
    · intro hexact
      have hends := hexact kernelSize (by simp) (initrdStart + kernelSize)
      by_contra hover
      rw [hsub, if_neg hover] at hends
      omega
    · intro hle size hmem x
      have hkernel : size = kernelSize := by
        rcases List.mem_cons.mp hmem with heq | hmem
        · cases heq
        rcases List.mem_cons.mp hmem with heq | hmem
        · cases heq
        rcases List.mem_cons.mp hmem with heq | hmem
        · cases heq
          rfl
        · obtain ⟨_, _, hstore⟩ := h _ hmem
          cases hstore
      rw [hkernel, hsub, if_pos hle, Nat.add_sub_cancel' hle]
  rw [RespectsMap]
  simp only [copied_iff h]
  rw [hstored, hplaced, hevents, rangeInMap_kernel, rangeInMap_setup]
  constructor
  · rintro ⟨⟨hrest, hsetup, hall⟩, hle⟩
    rw [sub32_of_le hle hsize] at hrest
    exact ⟨hle, hsetup, hrest, hall⟩
  · rintro ⟨hle, hsetup, hrest, hall⟩
    rw [sub32_of_le hle hsize]
    exact ⟨⟨hrest, hsetup, hall⟩, hle⟩

/-! ### Kernels -/

/-- The header, whose size a byte of the kernel gives, is no longer than the kernel and the area for it. -/
def HeaderFits (kernelSize : Nat) (setupSects : UInt8) : Prop :=
  (setupSects.toNat + 1) * 512 ≤ kernelSize ∧ setupSects.toNat < 128

/-- Nothing has been done but stores. -/
def Machine.OnlyStores (m : Machine) : Prop := ∀ e ∈ m.events, ∃ address length, e = .store address length

theorem Machine.OnlyStores.store {m : Machine} (h : m.OnlyStores) (address length : Nat) (bytes : Nat → UInt8) :
    (m.store address length bytes).OnlyStores :=
  List.forall_mem_cons.mpr ⟨⟨address, length, rfl⟩, h⟩

theorem Machine.OnlyStores.grubRead {m : Machine} (h : m.OnlyStores) (file : GrubFile) (buf len : Nat) :
    (m.grubRead file buf len).OnlyStores := by
  refine List.forall_mem_append.mpr ⟨?_, h⟩
  rw [List.forall_mem_map]
  exact fun i _ => ⟨buf + i, 1, rfl⟩

/-- `memPlaceKernel` after stores. -/
theorem respectsMap_memPlaceKernel {m : Machine} (h : m.OnlyStores) {kernelSize : Nat}
    (hsize : kernelSize < 2 ^ 32) :
    RespectsMap (m.memPlaceKernel initrdStart kernelSize).events ↔
      HeaderFits kernelSize (m.memory (initrdStart + 0x01f1)) ∧
        kernelSize - ((m.memory (initrdStart + 0x01f1)).toNat + 1) * 512 ≤ maxInitrdEnd - kernelPmCode ∧
        RespectsMap m.events := by
  have hbyte := (m.memory (initrdStart + 0x01f1)).toNat_lt
  refine (respectsMap_place h hsize (show ((m.memory (initrdStart + 0x01f1)).toNat + 1) * 512 < 2 ^ 32 by omega)).trans ?_
  have hsetup : ((m.memory (initrdStart + 0x01f1)).toNat + 1) * 512 ≤ gdtLoc - kernelSetup ↔
      (m.memory (initrdStart + 0x01f1)).toNat < 128 := by
    rw [gdtLoc, kernelSetup]
    omega
  rw [HeaderFits, hsetup, and_assoc]

/-- For a kernel no longer than the area for the initrd the header decides. -/
theorem respectsMap_loaded {m : Machine} (h : m.OnlyStores) {kernelSize : Nat} (hmax : kernelSize ≤ maxInitrdSize) :
    RespectsMap (m.memPlaceKernel initrdStart kernelSize).events ↔
      HeaderFits kernelSize (m.memory (initrdStart + 0x01f1)) ∧ RespectsMap m.events := by
  have hlarge : maxInitrdSize < 2 ^ 32 ∧ maxInitrdSize ≤ maxInitrdEnd - kernelPmCode := by decide
  rw [respectsMap_memPlaceKernel h (by omega)]
  refine and_congr_right fun _ => and_iff_right ?_
  omega

/-- The byte with the size of the header is in the file, if the header is. -/
theorem headerFits_write (memory : Mem) {kernelSize stored : Nat} (h : kernelSize ≤ stored) (bytes : Nat → UInt8) :
    HeaderFits kernelSize (memory.write initrdStart stored bytes (initrdStart + 0x01f1)) ↔
      HeaderFits kernelSize (bytes 0x01f1) := by
  by_cases hlong : 0x01f1 < kernelSize
  · rw [Mem.write_of_mem (Nat.lt_of_lt_of_le hlong h)]
  · unfold HeaderFits
    omega

variable (fs : FileSystems) (config : CONFIGENTRY) (m : Machine)

/-- The files that the loader finds fit: a kernel that is loaded has a header that fits, and no file of a FATX
    partition or a CD-ROM is longer than the area for the initrd, the latter in whole blocks. On a CD-ROM the kernel
    must be there. -/
def KernelFits : Prop :=
  match config.bootType with
  | .native =>
      let kernel := fs.grub 0 (fs.szGrub config.szKernel.string)
      kernel.nRet = 1 → HeaderFits (kernel.read maxKernelSize)
        (kernel.readOver initrdStart maxKernelSize m.memory (initrdStart + 0x01f1))
  | .fatx =>
      fs.partition = true → ∀ kernel, fs.fatx 0 config.szKernel.string = some kernel →
        kernel.fileSize ≤ maxInitrdSize ∧
          (kernel.fileRead = kernel.fileSize → HeaderFits kernel.fileSize (kernel.bytes 0x01f1) ∧
            (config.szInitrd.string ≠ [] → ∀ initrd, fs.fatx 1 config.szInitrd.string = some initrd →
              initrd.fileSize ≤ maxInitrdSize))
  | .cdrom =>
      ∃ kernel, fs.record 0 config.szKernel.string = some kernel ∧
        wholeBlocks (fileReadSize kernel maxKernelSize m.memory) ≤ maxInitrdSize ∧
        HeaderFits (fileReadSize kernel maxKernelSize m.memory) (extentByte fs.disc kernel.extent 0x01f1) ∧
        (config.szInitrd.string ≠ [] → ∀ initrd, fs.record 1 config.szInitrd.string = some initrd →
          roundUp (fileReadSize initrd maxInitrdSize (placeKernelCdrom fs config m).2.memory) ≤ maxInitrdSize)

variable {fs config} {memory : Mem} {dwKernelSize dwInitrdSize : Nat}

theorem respectsMap_setup {length : Nat} (h : length ≤ gdtLoc - kernelSetup) :
    RespectsMap [.store kernelSetup length] :=
  respectsMap_store.mpr ⟨rangeInMap_setup.mpr h, respectsMap_nil⟩

theorem onlyStores_start (memory : Mem) (dwKernelSize dwInitrdSize : Nat) :
    (Machine.start memory dwKernelSize dwInitrdSize).OnlyStores := fun _ hmem => absurd hmem List.not_mem_nil

/-- A kernel that is read to the temporary location and then placed. -/
theorem respectsMap_read {m : Machine} (h : m.OnlyStores) (hm : RespectsMap m.events) {kernelSize : Nat}
    (bytes : Nat → UInt8) (hmax : kernelSize ≤ maxInitrdSize) :
    RespectsMap ((m.store initrdStart kernelSize bytes).memPlaceKernel initrdStart kernelSize).events ↔
      HeaderFits kernelSize (bytes 0x01f1) := by
  refine (respectsMap_loaded (h.store _ _ _) hmax).trans ?_
  exact (and_iff_left (respectsMap_store.mpr ⟨rangeInMap_initrd.mpr hmax, hm⟩)).trans
    (headerFits_write _ (Nat.le_refl _) _)

/-- A byte in front of the area that grub reads to, or in it. -/
theorem inMap_kernel {i : Nat} (h : i < maxKernelSize) : InMap (initrdStart + i) :=
  rangeInMap_initrd.mpr (Nat.le_refl _) _ (Nat.le_add_right _ _)
    (Nat.add_lt_add_left (Nat.lt_of_lt_of_le h (by decide)) _)

theorem inMap_initrd {i : Nat} (h : i < maxInitrdSize) : InMap (initrdStart + i) :=
  rangeInMap_initrd.mpr (Nat.le_refl _) _ (Nat.le_add_right _ _) (Nat.add_lt_add_left h _)

/-- A kernel that grub reads to the temporary location and that is then placed. -/
theorem respectsMap_grubKernel {m : Machine} (h : m.OnlyStores) (hm : RespectsMap m.events) (kernel : GrubFile)
    (dwKernelSize : Nat) :
    RespectsMap (Machine.memPlaceKernel
        { m.grubRead kernel initrdStart maxKernelSize with dwKernelSize := dwKernelSize } initrdStart
          (kernel.read maxKernelSize)).events ↔
      HeaderFits (kernel.read maxKernelSize)
        (kernel.readOver initrdStart maxKernelSize m.memory (initrdStart + 0x01f1)) := by
  have hmax : kernel.read maxKernelSize ≤ maxInitrdSize := Nat.le_trans (GrubFile.read_le _ _) (by decide)
  have hstores : Machine.OnlyStores { m.grubRead kernel initrdStart maxKernelSize with dwKernelSize := dwKernelSize } :=
    h.grubRead kernel initrdStart maxKernelSize
  have hread : RespectsMap (m.grubRead kernel initrdStart maxKernelSize).events :=
    (respectsMap_grubRead m kernel initrdStart maxKernelSize).mpr
      ⟨fun i hi => inMap_kernel (kernel.stored_lt _ i hi), hm⟩
  exact (respectsMap_loaded hstores hmax).trans (and_iff_left hread)

/-- grub stores no more than it is asked for. -/
theorem respectsMap_native (h : config.bootType = .native) :
    RespectsMap (loadKernelNative fs config (.start memory dwKernelSize dwInitrdSize)).2.events ↔
      KernelFits fs config (.start memory dwKernelSize dwInitrdSize) := by
  rw [KernelFits, h]
  dsimp only
  rw [loadKernelNative]
  dsimp only
  have hstores := (onlyStores_start memory dwKernelSize dwInitrdSize).store kernelSetup 2048 fun _ => 0
  have hsetup : RespectsMap ((Machine.start memory dwKernelSize dwInitrdSize).store kernelSetup 2048 fun _ => 0).events :=
    respectsMap_setup (by decide)
  have hmemory : ((Machine.start memory dwKernelSize dwInitrdSize).store kernelSetup 2048 fun _ => 0).memory =
      memory.write kernelSetup 2048 fun _ => 0 := rfl
  have hbehind : ∀ i, (memory.write kernelSetup 2048 fun _ => 0) (initrdStart + i) = memory (initrdStart + i) := by
    intro i
    have hend : kernelSetup + 2048 ≤ initrdStart := by decide
    exact Mem.write_of_not_mem fun h => absurd h.2 (Nat.not_lt.mpr (Nat.le_trans hend (Nat.le_add_right _ i)))
  generalize (Machine.start memory dwKernelSize dwInitrdSize).store kernelSetup 2048 (fun _ => 0) = m at *
  by_cases hopen : (fs.grub 0 (fs.szGrub config.szKernel.string)).nRet = 1
  · rw [if_neg (not_not_intro hopen), imp_iff_right hopen]
    have hplaced := respectsMap_grubKernel hstores hsetup (fs.grub 0 (fs.szGrub config.szKernel.string))
      ((fs.grub 0 (fs.szGrub config.szKernel.string)).read maxKernelSize)
    rw [hmemory, GrubFile.readOver_buf, hbehind, ← GrubFile.readOver_buf] at hplaced
    have hstart : (Machine.start memory dwKernelSize dwInitrdSize).memory = memory := rfl
    rw [hstart, ← hplaced]
    generalize { m.grubRead (fs.grub 0 (fs.szGrub config.szKernel.string)) initrdStart maxKernelSize with
      dwKernelSize := (fs.grub 0 (fs.szGrub config.szKernel.string)).read maxKernelSize } = loaded
    by_cases hinitrd : config.szInitrd.string.length = 0
    · rw [if_neg (not_not_intro hinitrd)]
    · rw [if_pos hinitrd]
      by_cases hempty : (fs.grub 1 config.szInitrd.string).filemax = 0
      · rw [if_pos hempty]
      · rw [if_neg hempty]
        by_cases hfails : (fs.grub 1 config.szInitrd.string).nRet ≠ 1 ∨ (fs.grub 1 config.szInitrd.string).errnum ≠ 0
        · rw [if_pos hfails]
        · rw [if_neg hfails]
          exact (respectsMap_grubRead _ _ _ _).trans
            (and_iff_right fun i hi => inMap_initrd ((fs.grub 1 config.szInitrd.string).stored_lt _ i hi))
  · rw [if_pos hopen]
    exact iff_of_true hsetup fun h => absurd h hopen

/-- A FATX file is loaded as it is, however long. -/
theorem respectsMap_loadFATXFilefixed (m : Machine) (file : Option FatxFile) :
    RespectsMap (m.loadFATXFilefixed file initrdStart).2.events ↔
      RespectsMap m.events ∧ ∀ f, file = some f → f.fileSize ≤ maxInitrdSize := by
  cases file with
  | none => exact (and_iff_left nofun).symm
  | some f =>
      have hstores : RespectsMap (((m.store initrdStart f.fileSize fun _ => 0xff).store initrdStart f.fileRead
          f.bytes).events) ↔ RespectsMap m.events ∧ ∀ f', some f = some f' → f'.fileSize ≤ maxInitrdSize := by
        refine respectsMap_store.trans ((and_congr_right' respectsMap_store).trans ?_)
        rw [rangeInMap_initrd, rangeInMap_initrd]
        constructor
        · rintro ⟨-, hsize, hm⟩
          refine ⟨hm, fun f' hf => ?_⟩
          cases hf
          exact hsize
        · rintro ⟨hm, hsize⟩
          exact ⟨Nat.le_trans f.fileRead_le (hsize f rfl), hsize f rfl, hm⟩
      rw [Machine.loadFATXFilefixed]
      split
      case isTrue => exact hstores
      case isFalse => exact hstores

/-- A kernel that is loaded to its end and then placed. -/
theorem respectsMap_loadedFile {m : Machine} (hm : RespectsMap m.events) (kernel : FatxFile)
    (hwhole : kernel.fileRead = kernel.fileSize) (h : m.OnlyStores) :
    RespectsMap (((m.store initrdStart kernel.fileSize fun _ => 0xff).store initrdStart kernel.fileRead
        kernel.bytes).memPlaceKernel initrdStart kernel.fileSize).events ↔
      kernel.fileSize ≤ maxInitrdSize ∧ HeaderFits kernel.fileSize (kernel.bytes 0x01f1) := by
  have hstores : (m.store initrdStart kernel.fileSize fun _ => 0xff).OnlyStores := h.store _ _ _
  rw [hwhole]
  by_cases hmax : kernel.fileSize ≤ maxInitrdSize
  · rw [and_iff_right hmax]
    exact respectsMap_read hstores (respectsMap_store.mpr ⟨rangeInMap_initrd.mpr hmax, hm⟩) kernel.bytes hmax
  · refine iff_of_false (fun hplaced => ?_) fun h => hmax h.1
    obtain ⟨-, -, hloaded⟩ := (respectsMap_memPlaceKernel (hstores.store _ _ _) kernel.fileSize_lt).mp hplaced
    exact hmax (rangeInMap_initrd.mp (respectsMap_store.mp hloaded).1)

theorem respectsMap_fatx (h : config.bootType = .fatx) :
    RespectsMap (loadKernelFatX fs config (.start memory dwKernelSize dwInitrdSize)).2.events ↔
      KernelFits fs config (.start memory dwKernelSize dwInitrdSize) := by
  rw [KernelFits, h]
  dsimp only
  rw [loadKernelFatX]
  dsimp only
  have hsetup : RespectsMap ((Machine.start memory dwKernelSize dwInitrdSize).store kernelSetup 4096 fun _ => 0).events :=
    respectsMap_setup (by decide)
  cases hpartition : fs.partition with
  | false =>
      rw [if_pos (by decide)]
      exact iff_of_true hsetup nofun
  | true =>
      rw [if_neg (by decide), imp_iff_right rfl]
      cases hkernel : fs.fatx 0 config.szKernel.string with
      | none => exact iff_of_true hsetup nofun
      | some kernel =>
          have hloaded := respectsMap_loadFATXFilefixed
            ((Machine.start memory dwKernelSize dwInitrdSize).store kernelSetup 4096 fun _ => 0) (some kernel)
          rw [and_iff_right hsetup] at hloaded
          simp only [Option.some.injEq, forall_eq'] at hloaded ⊢
          by_cases hwhole : kernel.fileRead = kernel.fileSize
          · rw [Machine.loadFATXFilefixed, if_pos hwhole] at hloaded ⊢
            dsimp only at hloaded ⊢
            rw [imp_iff_right hwhole]
            have hplaced := respectsMap_loadedFile hsetup kernel hwhole
              ((onlyStores_start memory dwKernelSize dwInitrdSize).store kernelSetup 4096 fun _ => 0)
            by_cases hnone : config.szInitrd.string = []
            · rw [if_neg (by rw [hnone]; exact fun h => h rfl)]
              exact hplaced.trans (and_congr_right' (and_iff_left fun h => absurd hnone h).symm)
            · rw [if_pos (mt List.eq_nil_of_length_eq_zero hnone), imp_iff_right hnone]
              have hinitrd := respectsMap_loadFATXFilefixed (Machine.memPlaceKernel
                (((Machine.start memory dwKernelSize dwInitrdSize).store kernelSetup 4096 fun _ => 0).store initrdStart
                  kernel.fileSize (fun _ => 0xff) |>.store initrdStart kernel.fileRead kernel.bytes) initrdStart
                    kernel.fileSize) (fs.fatx 1 config.szInitrd.string)
              rw [hplaced, and_assoc] at hinitrd
              rw [← hinitrd]
              cases fs.fatx 1 config.szInitrd.string with
              | none => exact Iff.rfl
              | some initrd =>
                  by_cases hread : initrd.fileRead = initrd.fileSize
                  · rw [Machine.loadFATXFilefixed, Machine.loadFATXFilefixed, if_pos hread, if_pos hread]
                    exact Iff.rfl
                  · rw [Machine.loadFATXFilefixed, Machine.loadFATXFilefixed, if_neg hread, if_neg hread]
                    exact Iff.rfl
          · rw [Machine.loadFATXFilefixed, if_neg hwhole] at hloaded ⊢
            refine hloaded.trans (and_iff_left fun h => absurd h hwhole).symm

/-! ### CD-ROMs -/

/-- What `read_file` stores. -/
theorem respectsMap_getFile (m : Machine) (disc : Disc) (record : Option IsoDirectoryRecord) (dwFileLengthMax : Nat) :
    RespectsMap (m.getFile disc record initrdStart dwFileLengthMax).2.events ↔
      RespectsMap m.events ∧ ∀ dirRead, record = some dirRead →
        roundUp (fileReadSize dirRead dwFileLengthMax m.memory) ≤ maxInitrdSize := by
  cases record with
  | none => exact (and_iff_left nofun).symm
  | some dirRead =>
      refine respectsMap_store.trans ?_
      rw [roundUp_whole, rangeInMap_initrd, and_comm]
      simp

/-- A size that is far enough from wrapping is rounded up to whole blocks. -/
theorem roundUp_eq_wholeBlocks {size : Nat} (h : size ≤ 0x10000000) : roundUp size = wholeBlocks size := by
  have hlt : wholeBlocks size < 2 ^ 32 := by
    rw [wholeBlocks, isoBlocksize]
    split
    · omega
    · omega
  exact (Iso.roundUp_eq hlt).1

/-- The machine when the kernel of a CD-ROM has been read. -/
theorem placeKernelCdrom_events {kernel : IsoDirectoryRecord} {m : Machine}
    (hrecord : fs.record 0 config.szKernel.string = some kernel) :
    (placeKernelCdrom fs config m).2.events =
      ((m.store initrdStart (roundUp (fileReadSize kernel maxKernelSize m.memory))
        (extentByte fs.disc kernel.extent)).memPlaceKernel initrdStart
          (fileReadSize kernel maxKernelSize m.memory)).events := by
  rw [placeKernelCdrom, hrecord]
  dsimp only [Machine.getFile]
  rw [roundUp_whole, toU32_toInt (Iso.fileReadSize_lt _ _ _)]
  rfl

/-- A kernel on a CD-ROM that is read and then placed. -/
theorem respectsMap_placeKernelCdrom :
    RespectsMap (placeKernelCdrom fs config (.start memory dwKernelSize dwInitrdSize)).2.events ↔
      ∃ kernel, fs.record 0 config.szKernel.string = some kernel ∧
        wholeBlocks (fileReadSize kernel maxKernelSize memory) ≤ maxInitrdSize ∧
        HeaderFits (fileReadSize kernel maxKernelSize memory) (extentByte fs.disc kernel.extent 0x01f1) := by
  have hstores := onlyStores_start memory dwKernelSize dwInitrdSize
  have hlimit : maxInitrdEnd - kernelPmCode = 0x2900000 := rfl
  cases hrecord : fs.record 0 config.szKernel.string with
  | none =>
      refine iff_of_false (fun hplaced => ?_) (fun ⟨_, hkernel, _⟩ => nomatch hkernel)
      rw [placeKernelCdrom, hrecord] at hplaced
      have hplaced' : RespectsMap ((Machine.start memory dwKernelSize dwInitrdSize).memPlaceKernel initrdStart
        (toU32 (-1))).events := hplaced
      obtain ⟨⟨-, hheader⟩, hrest, -⟩ := (respectsMap_memPlaceKernel hstores (by decide)).mp hplaced'
      have hvalue : toU32 (-1) = 0xFFFFFFFF := rfl
      omega
  | some kernel =>
      rw [placeKernelCdrom_events hrecord]
      show RespectsMap (((Machine.start memory dwKernelSize dwInitrdSize).store initrdStart
        (roundUp (fileReadSize kernel maxKernelSize memory)) (extentByte fs.disc kernel.extent)).memPlaceKernel
          initrdStart (fileReadSize kernel maxKernelSize memory)).events ↔ _
      simp only [Option.some.injEq, exists_eq_left']
      have hsize : fileReadSize kernel maxKernelSize memory < 2 ^ 32 := Iso.fileReadSize_lt _ _ _
      generalize fileReadSize kernel maxKernelSize memory = size at hsize ⊢
      rw [respectsMap_memPlaceKernel (hstores.store _ _ _) hsize]
      have hstored : RespectsMap ((Machine.start memory dwKernelSize dwInitrdSize).store initrdStart (roundUp size)
          (extentByte fs.disc kernel.extent)).events ↔ roundUp size ≤ maxInitrdSize :=
        respectsMap_store.trans ((and_iff_left respectsMap_nil).trans rangeInMap_initrd)
      have hcover := le_wholeBlocks size
      have hlarge : maxInitrdSize = 0x2100000 := rfl
      rw [hstored]
      by_cases hsmall : size ≤ 0x10000000
      · have hround := roundUp_eq_wholeBlocks hsmall
        have hbyte := headerFits_write memory (hround ▸ hcover) (extentByte fs.disc kernel.extent)
        refine (and_congr_left' hbyte).trans ?_
        rw [hround]
        constructor
        · rintro ⟨hheader, -, hwhole⟩
          exact ⟨hwhole, hheader⟩
        · rintro ⟨hwhole, hheader⟩
          exact ⟨hheader, by omega, hwhole⟩
      · refine iff_of_false ?_ fun h => hsmall (by omega)
        rintro ⟨⟨-, hheader⟩, hrest, -⟩
        omega

theorem respectsMap_cdrom (h : config.bootType = .cdrom) :
    RespectsMap (loadKernelCdrom fs config (.start memory dwKernelSize dwInitrdSize)).2.events ↔
      KernelFits fs config (.start memory dwKernelSize dwInitrdSize) := by
  have hplaced := @respectsMap_placeKernelCdrom fs config memory dwKernelSize dwInitrdSize
  have hreturned : (placeKernelCdrom fs config (.start memory dwKernelSize dwInitrdSize)).1 = .returned 1 := rfl
  rw [KernelFits, h]
  dsimp only
  rw [loadKernelCdrom]
  generalize placeKernelCdrom fs config (.start memory dwKernelSize dwInitrdSize) = placed at hplaced hreturned ⊢
  obtain ⟨ending, m⟩ := placed
  cases hreturned
  dsimp only at hplaced ⊢
  have hkernel : (∃ kernel, fs.record 0 config.szKernel.string = some kernel ∧
      wholeBlocks (fileReadSize kernel maxKernelSize memory) ≤ maxInitrdSize ∧
      HeaderFits (fileReadSize kernel maxKernelSize memory) (extentByte fs.disc kernel.extent 0x01f1) ∧
      (config.szInitrd.string ≠ [] → ∀ initrd, fs.record 1 config.szInitrd.string = some initrd →
        roundUp (fileReadSize initrd maxInitrdSize m.memory) ≤ maxInitrdSize)) ↔
      RespectsMap m.events ∧ (config.szInitrd.string ≠ [] → ∀ initrd,
        fs.record 1 config.szInitrd.string = some initrd →
          roundUp (fileReadSize initrd maxInitrdSize m.memory) ≤ maxInitrdSize) := by
    rw [hplaced]
    constructor
    · rintro ⟨kernel, hrecord, hwhole, hheader, hinitrd⟩
      exact ⟨⟨kernel, hrecord, hwhole, hheader⟩, hinitrd⟩
    · rintro ⟨⟨kernel, hrecord, hwhole, hheader⟩, hinitrd⟩
      exact ⟨kernel, hrecord, hwhole, hheader, hinitrd⟩
  refine Iff.trans ?_ hkernel.symm
  by_cases hnone : config.szInitrd.string = []
  · rw [if_neg (by rw [hnone]; exact fun h => h rfl)]
    exact (and_iff_left fun h => absurd hnone h).symm
  · rw [if_pos (mt List.eq_nil_of_length_eq_zero hnone), imp_iff_right hnone, ← respectsMap_getFile m fs.disc]
    rfl

/-! ### Configurations -/

/-- The file that `LoadConfigNative` ends with. -/
def configFile (fs : FileSystems) : GrubFile :=
  let file := fs.grub 0 bootLinuxbootCfg
  if file.nRet ≠ 1 ∨ file.errnum ≠ 0 then fs.grub 1 Fatx.linuxbootCfg else file

/-- The memory when the file is there. -/
def configMemory (file : GrubFile) (memory : Mem) : Mem :=
  file.readOver kernelSetup file.filemax (memory.write kernelSetup 2048 fun _ => 0)

/-- A run of `LoadConfigNative` respects the map with its own stores and with those of `ParseConfig`. -/
def ConfigRespectsMap (run : Except Config.Fault (List CONFIGENTRY) × Machine) : Prop :=
  RespectsMap run.2.events ∧ run.1 ≠ .error .store

/-- Of a file that opens every byte that is stored is in an area, its length ends in front of `GDT_LOC`, and so does the
    value of its last line, which is looked for behind the text when the line has no separator and no white space at the
    end of the text gives way to a NUL. -/
def ConfigFits (file : GrubFile) (memory : Mem) : Prop :=
  file.nRet = 1 ∧ file.errnum = 0 →
    let nLen := file.read file.filemax
    let text := (configMemory file memory).bytesFrom kernelSetup nLen
    let after := (configMemory file memory).bytesFrom (kernelSetup + (nLen + 1)) (ramsize - kernelSetup - (nLen + 1))
    (∀ i, (file.stored file.filemax i).isSome → InMap (kernelSetup + i)) ∧ nLen < gdtLoc - kernelSetup ∧
      (TrimsTail (configLines text) ∨
        lastFault (gdtLoc - kernelSetup) (cString text).length ((configLines text).getLastD []) (tailOf text after) ≠
          some .store)

/-- `ParseConfig` on the text in the setup area. -/
theorem parse_setup_iff (m : Mem) {nLen : Nat} (h : nLen < ramsize - kernelSetup) :
    parseConfig (gdtLoc - kernelSetup) none (m.bytesFrom kernelSetup (ramsize - kernelSetup)) nLen = .error .store ↔
      gdtLoc - kernelSetup ≤ nLen ∨ ¬ TrimsTail (configLines (m.bytesFrom kernelSetup nLen)) ∧
        lastFault (gdtLoc - kernelSetup) (cString (m.bytesFrom kernelSetup nLen)).length
          ((configLines (m.bytesFrom kernelSetup nLen)).getLastD [])
          (tailOf (m.bytesFrom kernelSetup nLen)
            (m.bytesFrom (kernelSetup + (nLen + 1)) (ramsize - kernelSetup - (nLen + 1)))) = some .store := by
  have hparse := parseConfig_store_iff (gdtLoc - kernelSetup) none (m.bytesFrom kernelSetup nLen)
    (m (kernelSetup + nLen)) (m.bytesFrom (kernelSetup + (nLen + 1)) (ramsize - kernelSetup - (nLen + 1)))
  rw [Mem.bytesFrom_length] at hparse
  rw [Mem.bytesFrom_split m kernelSetup h]
  exact hparse

theorem configRespectsMap_iff (drive partition : Int) :
    ConfigRespectsMap (loadConfigNative fs drive partition (.start memory dwKernelSize dwInitrdSize)) ↔
      ConfigFits (configFile fs) memory := by
  rw [ConfigRespectsMap, ConfigFits, loadConfigNative]
  dsimp only
  generalize hfile : (if (fs.grub 0 bootLinuxbootCfg).nRet ≠ 1 ∨ (fs.grub 0 bootLinuxbootCfg).errnum ≠ 0 then
    fs.grub 1 Fatx.linuxbootCfg else fs.grub 0 bootLinuxbootCfg) = file
  have hconfig : configFile fs = file := hfile
  rw [hconfig]
  by_cases hopen : file.nRet = 1 ∧ file.errnum = 0
  · rw [if_neg (by rw [not_or, not_not, not_not]; exact hopen), imp_iff_right hopen]
    have hevents : RespectsMap (((Machine.start memory dwKernelSize dwInitrdSize).store kernelSetup 2048
        fun _ => 0).grubRead file kernelSetup file.filemax).events ↔
          ∀ i, (file.stored file.filemax i).isSome → InMap (kernelSetup + i) :=
      (respectsMap_grubRead _ _ _ _).trans (and_iff_left (respectsMap_setup (by decide)))
    have hmemory : (((Machine.start memory dwKernelSize dwInitrdSize).store kernelSetup 2048
        fun _ => 0).grubRead file kernelSetup file.filemax).memory = configMemory file memory := rfl
    have hsetup : gdtLoc - kernelSetup = 0x10000 := rfl
    have hlimit : maxConfigFilesize = 0x40000 := rfl
    have hram : ramsize - kernelSetup = 0x3F70000 := rfl
    rw [hmemory]
    by_cases hlong : maxConfigFilesize < file.read file.filemax
    · rw [if_pos hlong, (parse_setup_iff (configMemory file memory) (by omega)).mpr (Or.inl (by omega))]
      exact iff_of_false (fun h => h.2 rfl) fun h => absurd h.2.1 (by omega)
    · have hstore := parse_setup_iff (configMemory file memory) (show file.read file.filemax < ramsize - kernelSetup by
        omega)
      rw [if_neg hlong]
      refine Iff.trans ?_ ((and_congr hevents (not_congr hstore)).trans ?_)
      · generalize parseConfig (gdtLoc - kernelSetup) none ((configMemory file memory).bytesFrom kernelSetup
          (ramsize - kernelSetup)) (file.read file.filemax) = run
        cases run with
        | error fault => simp
        | ok result => simp
      · rw [not_or, not_and_or, not_not, Nat.not_le]
  · rw [if_pos (not_and_or.mp hopen)]
    exact iff_of_true ⟨respectsMap_setup (by decide), nofun⟩ fun h => absurd h hopen

/-! ### All loaders -/

/-- The loaders store only into their areas, and place exactly the kernel that was loaded, exactly when the files that
    they find fit. -/
theorem loaders_respect_map_iff (fs : FileSystems) (memory : Mem) (dwKernelSize dwInitrdSize : Nat) :
    (∀ drive partition,
      ConfigRespectsMap (loadConfigNative fs drive partition (.start memory dwKernelSize dwInitrdSize)) ↔
        ConfigFits (configFile fs) memory) ∧
    ∀ config, RespectsMap (loadKernel fs config (.start memory dwKernelSize dwInitrdSize)).2.events ↔
      KernelFits fs config (.start memory dwKernelSize dwInitrdSize) := by
  refine ⟨configRespectsMap_iff, fun config => ?_⟩
  cases h : config.bootType with
  | cdrom =>
      rw [loadKernel, h]
      exact respectsMap_cdrom h
  | fatx =>
      rw [loadKernel, h]
      exact respectsMap_fatx h
  | native =>
      rw [loadKernel, h]
      exact respectsMap_native h

/-- The kernel is not on the CD-ROM, and the heap arena is overwritten. -/
theorem missing_kernel_overwrites_heap :
    ¬ RespectsMap (loadKernel emptyMedia CONFIGENTRY.zero (.start (fun _ => 0) 0 0)).2.events := by
  rintro ⟨hareas, -⟩
  have hkernel := hareas (.copy kernelPmCode (initrdStart + 512) (0xFFFFFFFF - 512)) (by decide)
  exact absurd (rangeInMap_kernel.mp hkernel) (by decide)

end Cromwell.Boot
