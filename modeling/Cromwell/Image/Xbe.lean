/-
Module: Cromwell.Image.Xbe
Layer: Model and proofs
Purpose: `xberepair` of `lib/imagebld/imagebld.c`, which puts a ROM into an XBE template, and when the file that it writes
  is a function of the two files that it reads. Its buffers come from `malloc` and only their first four bytes are
  cleared, as `sizeof` of a pointer is; the rounded size reaches behind everything that is copied.
Imports: Cromwell.Image.Builder
Trusted boundary: reviewed against src/lib/imagebld/imagebld.c and src/lib/imagebld/xbe-header.h, for 32-bit pointers
Main exports: xberepair, FunctionOfInputs, Determined, xberepair_function_iff
-/
import Cromwell.Image.Builder

namespace Cromwell.Image

open ByteMemory

/-- The ROM and its size in the XBE buffer; the first two memories are what the blocks from `malloc` hold. -/
def copyRom (crom xbe : Mem) (xbeimage : List UInt8) (xbesize : Nat) (cromimage : List UInt8) (romsize : Nat) :
    Option Buffer := do
  let crom ← (Buffer.mk 0x100000 crom).write 0 romsize (cromimage.getD · 0)
  -- the size of the pointer
  let xbe ← (Buffer.mk 0x103000 xbe).fill 0 4 0x00
  let xbe ← xbe.write 0 xbesize (xbeimage.getD · 0)
  let rom ← crom.slice 0 romsize
  let xbe ← xbe.write 0x3000 romsize rom
  xbe.write 0x1084 4 (Mem.wordByte romsize)

/-- The rest: the sizes and the hash, and the bytes that are written. A section header is an offset from the start of
    the buffer. -/
def repair (H : Hashes) (xbe : Buffer) (romsize : Nat) : Option (List UInt8) := do
  let romsize := (romsize &&& 0xfffffff0) + 32
  let sechdr := sub32 (xbe.bytes.loadWord 0x120) (xbe.bytes.loadWord 0x104)
  let xbesize := 0x3000 + romsize
  let xbe ← xbe.write 0x10c 4 (Mem.wordByte xbesize)
  let xbe ← xbe.write (u32 (sechdr + 0x10)) 4 (Mem.wordByte (0x2000 + romsize))
  let xbe ← xbe.write (u32 (sechdr + 0x08)) 4 (Mem.wordByte (0x2000 + romsize))
  let _ ← xbe.slice (u32 (sechdr + 0x0c)) 4
  let fileAddress := xbe.bytes.loadWord (u32 (sechdr + 0x0c))
  let fileSize := xbe.bytes.loadWord (u32 (sechdr + 0x10))
  let section0 ← xbe.slice fileAddress fileSize
  let hash := H.sha1 ((List.range 4).map (Mem.wordByte fileSize) ++ Mem.bytesFrom section0 0 fileSize)
  let xbe ← xbe.write (u32 (sechdr + 0x24)) 20 hash
  -- the virtual address is printed
  let _ ← xbe.slice (u32 (sechdr + 0x04)) 4
  let file ← xbe.slice 0 xbesize
  some (Mem.bytesFrom file 0 xbesize)

/-- `xberepair`; there is no file when the ROM is too big. -/
def xberepair (H : Hashes) (crom xbe : Mem) (xbeimage cromimage : List UInt8) : Option (Option (List UInt8)) :=
  let romsize := u32 cromimage.length
  if romsize > 0x100000 then some none
  else do
    let xbe ← copyRom crom xbe xbeimage (u32 xbeimage.length) cromimage romsize
    let file ← repair H xbe romsize
    some (some file)

/-! ### The buffer on the way -/

/-- The size of the file that is written. -/
def writtenSize (romsize : Nat) : Nat := 0x3000 + ((romsize &&& 0xfffffff0) + 32)

/-- The buffer when both files and the size of the ROM are in it. -/
def filled (xbe : Mem) (xbeimage cromimage : List UInt8) : Mem :=
  (((xbe.fill 0 4 0x00).write 0 xbeimage.length (xbeimage.getD · 0)).write 0x3000 cromimage.length
    (cromimage.getD · 0)).write 0x1084 4 (Mem.wordByte cromimage.length)

section Repair

variable (m : Mem) (n q : Nat)

/-- The place of the field `VirtualAddress` of the section header, the first one that is looked at. -/
def sectionField : Nat := u32 (sub32 (m.loadWord 0x120) (m.loadWord 0x104) + 4)

/-- The buffer with the sizes in the header and in the section header. -/
def sized : Mem :=
  ((m.write 0x10c 4 (Mem.wordByte n)).write (q + 0x0c) 4 (Mem.wordByte (n - 0x1000))).write (q + 0x04) 4
    (Mem.wordByte (n - 0x1000))

/-- The field `FileAddress`. -/
def fileAddress : Nat := (sized m n q).loadWord (q + 0x08)

/-- The hash of the section. -/
def sectionHash (H : Hashes) : Nat → UInt8 :=
  H.sha1 ((List.range 4).map (Mem.wordByte (n - 0x1000)) ++
    (sized m n q).bytesFrom (fileAddress m n q) (n - 0x1000))

/-- The buffer that is written. -/
def hashedBuffer (H : Hashes) : Mem := (sized m n q).write (q + 0x20) 20 (sectionHash m n q H)

end Repair

variable {H : Hashes} {crom xbe : Mem} {xbeimage cromimage : List UInt8}

theorem writtenSize_eq {romsize : Nat} (h : romsize ≤ 0x100000) :
    writtenSize romsize = 0x3000 + (romsize / 16 * 16 + 32) := by
  have hmask : romsize &&& 0xfffffff0 = romsize / 16 * 16 := and_highMask (k := 4) (by omega) (by decide)
  rw [writtenSize, hmask]

theorem copyRom_eq (crom xbe : Mem) (hxbe : xbeimage.length ≤ 0x103000) (hcrom : cromimage.length ≤ 0x100000) :
    copyRom crom xbe xbeimage xbeimage.length cromimage cromimage.length =
      some ⟨0x103000, filled xbe xbeimage cromimage⟩ := by
  have hcopy : ∀ m : Mem, m.write 0x3000 cromimage.length
      (fun i => crom.write 0 cromimage.length (cromimage.getD · 0) (0 + i)) =
        m.write 0x3000 cromimage.length (cromimage.getD · 0) := by
    intro m
    apply Mem.write_congr
    intro k hk
    exact Mem.write_of_mem hk
  rw [copyRom, Buffer.write_inside (by omega)]
  simp only [Option.bind_eq_bind, Option.bind_some]
  rw [Buffer.fill_inside (by omega)]
  simp only [Option.bind_some]
  rw [Buffer.write_inside (by omega)]
  simp only [Option.bind_some]
  rw [Buffer.slice_inside (by omega)]
  simp only [Option.bind_some]
  rw [Buffer.write_inside (by omega)]
  simp only [Option.bind_some]
  rw [Buffer.write_inside (by omega), hcopy]
  rfl

theorem loadWord_write (m : Mem) (a : Nat) {w : Nat} (hw : w < 2 ^ 32) :
    (m.write a 4 (Mem.wordByte w)).loadWord a = w :=
  (Mem.loadWord_eq_iff hw).mpr fun _ hi => Mem.write_of_mem hi

/-- `FileSize` as it is read again. -/
theorem sized_fileSize (m : Mem) (q : Nat) {n : Nat} (hn : n < 2 ^ 32) :
    (sized m n q).loadWord (q + 0x0c) = n - 0x1000 := by
  have hframe : (sized m n q).loadWord (q + 0x0c) =
      ((m.write 0x10c 4 (Mem.wordByte n)).write (q + 0x0c) 4 (Mem.wordByte (n - 0x1000))).loadWord (q + 0x0c) :=
    Mem.loadWord_congr fun x _ _ => Mem.write_of_not_mem (by omega)
  rw [hframe, loadWord_write _ _ (by omega)]

/-- The fields of the section header, when they all lie in the buffer. -/
theorem u32_field {sechdr q k : Nat} (hq : q = u32 (sechdr + 4)) (h : q + k < 2 ^ 32) :
    u32 (sechdr + (k + 4)) = q + k := by
  rw [u32] at hq ⊢
  omega

section Rest

variable {m : Mem} {romsize n : Nat} {file : List UInt8}

/-- What a run of the rest that comes to its end says. -/
theorem repair_some (hn : n = 0x3000 + ((romsize &&& 0xfffffff0) + 32)) (hbound : n < 2 ^ 31)
    (h : repair H ⟨0x103000, m⟩ romsize = some file) :
    sectionField m + 0x34 ≤ 0x103000 ∧ fileAddress m n (sectionField m) + (n - 0x1000) ≤ 0x103000 ∧
      n ≤ 0x103000 ∧ file = (hashedBuffer m n (sectionField m) H).bytesFrom 0 n := by
  have hsection : 0x2000 + ((romsize &&& 0xfffffff0) + 32) = n - 0x1000 := by omega
  rw [repair] at h
  dsimp only at h
  rw [← hn, hsection] at h
  generalize hsechdr : sub32 (m.loadWord 0x120) (m.loadWord 0x104) = sechdr at h
  have hq : sectionField m = u32 (sechdr + 4) := by rw [sectionField, hsechdr]
  simp only [Option.bind_eq_bind, Option.bind_eq_some_iff] at h
  obtain ⟨x₁, h₁, x₂, h₂, x₃, h₃, _, h₄, bytes, h₅, x₄, h₆, _, h₇, all, h₈, hfile⟩ := h
  -- The last access, to the first field of the section header, puts all fields where they belong.
  have hbuffer : x₄.size = 0x103000 :=
    (Buffer.size_of_write h₆).trans ((Buffer.size_of_write h₃).trans
      ((Buffer.size_of_write h₂).trans (Buffer.size_of_write h₁)))
  have hfirst : sectionField m + 4 ≤ 0x103000 := by
    rw [hq, ← hbuffer]
    exact (Buffer.slice_eq_some.mp h₇).1
  have hfield : ∀ k, k ≤ 0x20 → u32 (sechdr + (k + 4)) = sectionField m + k := fun k hk =>
    u32_field hq (by omega)
  rw [show u32 (sechdr + 0x10) = sectionField m + 0x0c from hfield 0x0c (by decide)] at h₂ h₅ h₆
  rw [show u32 (sechdr + 0x08) = sectionField m + 0x04 from hfield 0x04 (by decide)] at h₃
  rw [show u32 (sechdr + 0x0c) = sectionField m + 0x08 from hfield 0x08 (by decide)] at h₅
  rw [show u32 (sechdr + 0x24) = sectionField m + 0x20 from hfield 0x20 (by decide)] at h₆
  obtain ⟨-, rfl⟩ := Buffer.write_eq_some.mp h₁
  obtain ⟨-, rfl⟩ := Buffer.write_eq_some.mp h₂
  obtain ⟨-, rfl⟩ := Buffer.write_eq_some.mp h₃
  have hread := sized_fileSize m (sectionField m) (show n < 2 ^ 32 by omega)
  change (Buffer.mk 0x103000 (sized m n (sectionField m))).slice (fileAddress m n (sectionField m))
    ((sized m n (sectionField m)).loadWord (sectionField m + 0x0c)) = some bytes at h₅
  change (Buffer.mk 0x103000 (sized m n (sectionField m))).write (sectionField m + 0x20) 20
    (H.sha1 ((List.range 4).map (Mem.wordByte ((sized m n (sectionField m)).loadWord (sectionField m + 0x0c))) ++
      Mem.bytesFrom bytes 0 ((sized m n (sectionField m)).loadWord (sectionField m + 0x0c)))) = some x₄ at h₆
  rw [hread] at h₅ h₆
  obtain ⟨hsection0, rfl⟩ := Buffer.slice_eq_some.mp h₅
  obtain ⟨hhash, rfl⟩ := Buffer.write_eq_some.mp h₆
  obtain ⟨hwritten, rfl⟩ := Buffer.slice_eq_some.mp h₈
  cases hfile
  dsimp only at hsection0 hhash hwritten ⊢
  refine ⟨by omega, hsection0, by omega, ?_⟩
  rw [Mem.bytesFrom_shift, Mem.bytesFrom_shift]
  rfl

/-- A run of the rest inside the buffer. -/
theorem repair_inside (hn : n = 0x3000 + ((romsize &&& 0xfffffff0) + 32)) (hfield : sectionField m + 0x34 ≤ 0x103000)
    (haddress : fileAddress m n (sectionField m) + (n - 0x1000) ≤ 0x103000) (hroom : n ≤ 0x103000) :
    repair H ⟨0x103000, m⟩ romsize = some ((hashedBuffer m n (sectionField m) H).bytesFrom 0 n) := by
  have hsection : 0x2000 + ((romsize &&& 0xfffffff0) + 32) = n - 0x1000 := by omega
  have hread := sized_fileSize m (sectionField m) (show n < 2 ^ 32 by omega)
  rw [repair]
  dsimp only
  rw [← hn, hsection]
  generalize hsechdr : sub32 (m.loadWord 0x120) (m.loadWord 0x104) = sechdr
  have hq : sectionField m = u32 (sechdr + 4) := by rw [sectionField, hsechdr]
  have hplace : ∀ k, k ≤ 0x20 → u32 (sechdr + (k + 4)) = sectionField m + k := fun k hk =>
    u32_field hq (by omega)
  rw [show u32 (sechdr + 0x10) = sectionField m + 0x0c from hplace 0x0c (by decide),
    show u32 (sechdr + 0x08) = sectionField m + 0x04 from hplace 0x04 (by decide),
    show u32 (sechdr + 0x0c) = sectionField m + 0x08 from hplace 0x08 (by decide),
    show u32 (sechdr + 0x24) = sectionField m + 0x20 from hplace 0x20 (by decide),
    show u32 (sechdr + 0x04) = sectionField m + 0 from hplace 0 (by decide)]
  refine Option.bind_eq_some_iff.mpr ⟨_, Buffer.write_inside (by omega), ?_⟩
  refine Option.bind_eq_some_iff.mpr ⟨_, Buffer.write_inside (by omega), ?_⟩
  refine Option.bind_eq_some_iff.mpr ⟨⟨0x103000, sized m n (sectionField m)⟩, Buffer.write_inside (by omega), ?_⟩
  refine Option.bind_eq_some_iff.mpr ⟨_, Buffer.slice_inside (by omega), ?_⟩
  dsimp only
  rw [hread]
  refine Option.bind_eq_some_iff.mpr ⟨_, Buffer.slice_inside haddress, ?_⟩
  refine Option.bind_eq_some_iff.mpr ⟨⟨0x103000, hashedBuffer m n (sectionField m) H⟩, ?_, ?_⟩
  · rw [Mem.bytesFrom_shift]
    exact Buffer.write_inside (by omega)
  · refine Option.bind_eq_some_iff.mpr ⟨_, Buffer.slice_inside (by omega), ?_⟩
    refine Option.bind_eq_some_iff.mpr ⟨_, Buffer.slice_inside (by omega), ?_⟩
    rw [Mem.bytesFrom_shift]

end Rest

/-- A run inside the buffers, and the file that it writes. -/
theorem xberepair_eq_some (hxbe : xbeimage.length ≤ 0x103000) (hcrom : cromimage.length ≤ 0x100000)
    {file : List UInt8} :
    xberepair H crom xbe xbeimage cromimage = some (some file) ↔
      sectionField (filled xbe xbeimage cromimage) + 0x34 ≤ 0x103000 ∧
        fileAddress (filled xbe xbeimage cromimage) (writtenSize cromimage.length)
          (sectionField (filled xbe xbeimage cromimage)) + (writtenSize cromimage.length - 0x1000) ≤ 0x103000 ∧
        writtenSize cromimage.length ≤ 0x103000 ∧
        file = (hashedBuffer (filled xbe xbeimage cromimage) (writtenSize cromimage.length)
          (sectionField (filled xbe xbeimage cromimage)) H).bytesFrom 0 (writtenSize cromimage.length) := by
  have hsize := writtenSize_eq hcrom
  rw [xberepair]
  rw [u32_of_lt (by omega : cromimage.length < 2 ^ 32), u32_of_lt (by omega : xbeimage.length < 2 ^ 32),
    if_neg (by omega), copyRom_eq crom xbe hxbe hcrom, Option.bind_eq_bind, Option.bind_some]
  constructor
  · intro h
    obtain ⟨written, hrun, heq⟩ := Option.bind_eq_some_iff.mp h
    cases heq
    exact repair_some rfl (by omega) hrun
  · rintro ⟨hfield, haddress, hroom, rfl⟩
    exact Option.bind_eq_some_iff.mpr ⟨_, repair_inside rfl hfield haddress hroom, rfl⟩

/-! ### What the file depends on -/

/-- The sizes in the headers of a file are those of the file; the section is what follows the first 0x1000 bytes. -/
structure Describes (file : List UInt8) (q : Nat) : Prop where
  imageSize : 0x110 ≤ file.length ∧ Mem.loadWord (file.getD · 0) 0x10c = file.length
  fileSize : q + 0x10 ≤ file.length ∧ Mem.loadWord (file.getD · 0) (q + 0x0c) = file.length - 0x1000
  virtualSize : Mem.loadWord (file.getD · 0) (q + 0x04) = file.length - 0x1000

/-- The place of the first section header, as the template has it. -/
def sectionOf (xbeimage : List UInt8) : Nat := sectionField (xbeimage.getD · 0)

/-- The file is a function of the two files that are read, whatever the memory holds and whatever the hash function is,
    and its headers describe it. -/
def FunctionOfInputs (xbeimage cromimage : List UInt8) : Prop :=
  ∀ H, ∃ file, (∀ crom xbe, xberepair H crom xbe xbeimage cromimage = some (some file)) ∧
    Describes file (sectionOf xbeimage)

/-- The bytes of the buffer that come from the two files, from their sizes or from the clearing. -/
def Given (xbeimage cromimage : List UInt8) (i : Nat) : Prop :=
  i < 4 ∨ i < xbeimage.length ∨ (0x3000 ≤ i ∧ i < 0x3000 + cromimage.length) ∨ (0x1084 ≤ i ∧ i < 0x1088) ∨
    (0x10c ≤ i ∧ i < 0x110)

/-- The bytes of `VirtualSize` and `FileSize`. -/
def SizeField (q i : Nat) : Prop := (q + 0x04 ≤ i ∧ i < q + 0x08) ∨ (q + 0x0c ≤ i ∧ i < q + 0x10)

/-- The bytes of the hash. -/
def HashField (q i : Nat) : Prop := q + 0x20 ≤ i ∧ i < q + 0x34

/-- When the file is determined: the template has its header, the section header lies in the buffer and in the file, no
    byte that is written or hashed is missing, and the stores to the section header leave `ImageSize` alone. -/
structure Determined (xbeimage cromimage : List UInt8) : Prop where
  header : 0x124 ≤ xbeimage.length
  room : writtenSize cromimage.length ≤ 0x103000
  fields : sectionOf xbeimage + 0x34 ≤ 0x103000
  inFile : sectionOf xbeimage + 0x10 ≤ writtenSize cromimage.length
  bytes : ∀ i < writtenSize cromimage.length,
    Given xbeimage cromimage i ∨ SizeField (sectionOf xbeimage) i ∨ HashField (sectionOf xbeimage) i
  address : fileAddress (filled (fun _ => 0) xbeimage cromimage) (writtenSize cromimage.length) (sectionOf xbeimage) +
    (writtenSize cromimage.length - 0x1000) ≤ 0x103000
  hashed : sectionOf xbeimage + 0x20 < writtenSize cromimage.length → ∀ k < writtenSize cromimage.length - 0x1000,
    let i := fileAddress (filled (fun _ => 0) xbeimage cromimage) (writtenSize cromimage.length)
      (sectionOf xbeimage) + k
    Given xbeimage cromimage i ∨ SizeField (sectionOf xbeimage) i
  imageSize : ∀ j < 4, ¬ HashField (sectionOf xbeimage) (0x10c + j) ∧
    sized (fun _ => 0) (writtenSize cromimage.length) (sectionOf xbeimage) (0x10c + j) =
      Mem.wordByte (writtenSize cromimage.length) j

theorem sized_given {n q i : Nat} (h : Given xbeimage cromimage i ∨ SizeField q i) (xbe xbe' : Mem) :
    sized (filled xbe xbeimage cromimage) n q i = sized (filled xbe' xbeimage cromimage) n q i := by
  simp only [Given, SizeField] at h
  simp only [sized, filled, Mem.write, Mem.fill]
  split_ifs <;> first | rfl | omega

theorem sized_missing {n q i : Nat} (h : ¬ (Given xbeimage cromimage i ∨ SizeField q i)) (xbe : Mem) :
    sized (filled xbe xbeimage cromimage) n q i = xbe i := by
  simp only [Given, SizeField] at h
  simp only [sized, filled]
  rw [Mem.write_of_not_mem (by omega), Mem.write_of_not_mem (by omega), Mem.write_of_not_mem (by omega),
    Mem.write_of_not_mem (by omega), Mem.write_of_not_mem (by omega), Mem.write_of_not_mem (by omega),
    Mem.fill_of_not_mem (by omega)]

/-- `ImageSize` after the stores to the section header. -/
theorem sized_imageSize {n q j : Nat} (hj : j < 4) (m m' : Mem) :
    sized m n q (0x10c + j) = sized m' n q (0x10c + j) := by
  simp only [sized, Mem.write]
  split_ifs <;> first | rfl | omega

theorem hashedBuffer_outside {m : Mem} {n q i : Nat} (h : ¬ HashField q i) : hashedBuffer m n q H i = sized m n q i := by
  rw [HashField] at h
  exact Mem.write_of_not_mem (by omega)

theorem sectionField_given (h : 0x124 ≤ xbeimage.length) (xbe : Mem) :
    sectionField (filled xbe xbeimage cromimage) = sectionOf xbeimage := by
  have hword : ∀ x, 4 ≤ x → x < 0x124 → filled xbe xbeimage cromimage x = xbeimage.getD x 0 := by
    intro x _ hx
    rw [filled, Mem.write_of_not_mem (by omega), Mem.write_of_not_mem (by omega)]
    simp only [Mem.write]
    rw [if_pos (by omega), Nat.sub_zero]
  have hsections : (filled xbe xbeimage cromimage).loadWord 0x120 = Mem.loadWord (xbeimage.getD · 0) 0x120 :=
    Mem.loadWord_congr fun x lo hi => hword x (by omega) (by omega)
  have hbase : (filled xbe xbeimage cromimage).loadWord 0x104 = Mem.loadWord (xbeimage.getD · 0) 0x104 :=
    Mem.loadWord_congr fun x lo hi => hword x (by omega) (by omega)
  rw [sectionOf, sectionField, sectionField, hsections, hbase]

/-! ### What every run says -/

section Runs

variable {q n : Nat}

/-- The file address depends on given bytes. -/
theorem fileAddress_given (h : ∀ k < 4, Given xbeimage cromimage (q + 0x08 + k) ∨ SizeField q (q + 0x08 + k))
    (xbe xbe' : Mem) :
    fileAddress (filled xbe xbeimage cromimage) n q = fileAddress (filled xbe' xbeimage cromimage) n q := by
  rw [fileAddress, fileAddress]
  apply Mem.loadWord_congr
  intro x lo hi
  obtain ⟨k, rfl⟩ := Nat.exists_eq_add_of_le lo
  exact sized_given (h k (by omega)) xbe xbe'

/-- So does the hash, when the section does. -/
theorem sectionHash_given
    (haddress : ∀ k < 4, Given xbeimage cromimage (q + 0x08 + k) ∨ SizeField q (q + 0x08 + k)) (xbe xbe' : Mem)
    (h : ∀ k < n - 0x1000, Given xbeimage cromimage (fileAddress (filled xbe xbeimage cromimage) n q + k) ∨
      SizeField q (fileAddress (filled xbe xbeimage cromimage) n q + k)) :
    sectionHash (filled xbe xbeimage cromimage) n q H = sectionHash (filled xbe' xbeimage cromimage) n q H := by
  have hbytes : (sized (filled xbe xbeimage cromimage) n q).bytesFrom
      (fileAddress (filled xbe xbeimage cromimage) n q) (n - 0x1000) =
        (sized (filled xbe' xbeimage cromimage) n q).bytesFrom
          (fileAddress (filled xbe xbeimage cromimage) n q) (n - 0x1000) :=
    Mem.bytesFrom_congr fun k hk => sized_given (h k hk) xbe xbe'
  rw [sectionHash, sectionHash, ← fileAddress_given haddress xbe xbe', hbytes]

end Runs

section Function

variable (hxbe : xbeimage.length ≤ 0x103000) (hcrom : cromimage.length ≤ 0x100000)

include hxbe hcrom

/-- Without the pointer to the section headers some memory leads outside. -/
theorem FunctionOfInputs.header (h : FunctionOfInputs xbeimage cromimage) : 0x124 ≤ xbeimage.length := by
  obtain ⟨file, hrun, -⟩ := h ⟨fun _ _ => 0, fun _ _ => 0⟩
  by_contra hshort
  obtain ⟨hzero, -⟩ := (xberepair_eq_some hxbe hcrom).mp (hrun (fun _ => 0) fun _ => 0)
  obtain ⟨hone, -⟩ := (xberepair_eq_some hxbe hcrom).mp (hrun (fun _ => 0) fun i => if i = 0x123 then 1 else 0)
  generalize hlow : filled (fun _ => 0) xbeimage cromimage = low at hzero
  generalize hhigh : filled (fun i => if i = 0x123 then 1 else 0) xbeimage cromimage = high at hone
  have hsame : ∀ x, x ≠ 0x123 → high x = low x := by
    intro x hx
    rw [← hlow, ← hhigh]
    simp only [filled, Mem.write, Mem.fill, if_neg hx]
  have hlast : low 0x123 = 0 ∧ high 0x123 = 1 := by
    rw [← hlow, ← hhigh]
    simp only [filled]
    rw [Mem.write_of_not_mem (by omega), Mem.write_of_not_mem (by omega), Mem.write_of_not_mem (by omega),
      Mem.fill_of_not_mem (by omega), Mem.write_of_not_mem (by omega), Mem.write_of_not_mem (by omega),
      Mem.write_of_not_mem (by omega), Mem.fill_of_not_mem (by omega)]
    exact ⟨rfl, if_pos rfl⟩
  have hbase : high.loadWord 0x104 = low.loadWord 0x104 := Mem.loadWord_congr fun x lo hi => hsame x (by omega)
  have hsections : high.loadWord 0x120 = low.loadWord 0x120 + 0x1000000 := by
    rw [Mem.loadWord, Mem.loadWord, hsame 0x120 (by decide), hsame (0x120 + 1) (by decide),
      hsame (0x120 + 2) (by decide), show 0x120 + 3 = 0x123 from rfl, hlast.1, hlast.2]
    rfl
  have hlt := Mem.loadWord_lt high 0x120
  have hbaselt := Mem.loadWord_lt low 0x104
  rw [sectionField, sub32, u32, u32] at hzero hone
  omega

/-- All runs with one hash function. -/
theorem FunctionOfInputs.runs (h : FunctionOfInputs xbeimage cromimage) (H : Hashes) :
    ∃ file, (∀ xbe, sectionOf xbeimage + 0x34 ≤ 0x103000 ∧
        fileAddress (filled xbe xbeimage cromimage) (writtenSize cromimage.length) (sectionOf xbeimage) +
          (writtenSize cromimage.length - 0x1000) ≤ 0x103000 ∧
        writtenSize cromimage.length ≤ 0x103000 ∧
        ∀ i < writtenSize cromimage.length, file.getD i 0 =
          hashedBuffer (filled xbe xbeimage cromimage) (writtenSize cromimage.length) (sectionOf xbeimage) H i) ∧
      file.length = writtenSize cromimage.length ∧ Describes file (sectionOf xbeimage) := by
  have hheader := h.header hxbe hcrom
  obtain ⟨file, hrun, hdescribes⟩ := h H
  refine ⟨file, fun xbe => ?_, ?_, hdescribes⟩
  · obtain ⟨hfield, haddress, hroom, hfile⟩ := (xberepair_eq_some hxbe hcrom).mp (hrun (fun _ => 0) xbe)
    rw [sectionField_given hheader] at hfield haddress hfile
    refine ⟨hfield, haddress, hroom, fun i hi => ?_⟩
    rw [hfile, Mem.getD_bytesFrom _ hi, Nat.zero_add]
  · obtain ⟨-, -, -, hfile⟩ := (xberepair_eq_some hxbe hcrom).mp (hrun (fun _ => 0) fun _ => 0)
    rw [hfile, Mem.bytesFrom_length]

/-- A byte that is not given shows in the file, unless the hash covers it. -/
theorem FunctionOfInputs.bytes (h : FunctionOfInputs xbeimage cromimage) {i : Nat}
    (hi : i < writtenSize cromimage.length) :
    Given xbeimage cromimage i ∨ SizeField (sectionOf xbeimage) i ∨ HashField (sectionOf xbeimage) i := by
  by_contra hmissing
  rw [← or_assoc, not_or] at hmissing
  obtain ⟨file, hruns, -⟩ := h.runs hxbe hcrom ⟨fun _ _ => 0, fun _ _ => 0⟩
  have hzero := (hruns fun _ => 0).2.2.2 i hi
  have hone := (hruns fun _ => 1).2.2.2 i hi
  rw [hashedBuffer_outside hmissing.2, sized_missing hmissing.1] at hzero hone
  rw [hzero] at hone
  exact absurd hone (by decide)

/-- The bytes of `FileAddress` are given. -/
theorem FunctionOfInputs.address (h : FunctionOfInputs xbeimage cromimage) {k : Nat} (hk : k < 4) :
    Given xbeimage cromimage (sectionOf xbeimage + 0x08 + k) ∨
      SizeField (sectionOf xbeimage) (sectionOf xbeimage + 0x08 + k) := by
  obtain ⟨file, -, hlength, hdescribes⟩ := h.runs hxbe hcrom ⟨fun _ _ => 0, fun _ _ => 0⟩
  have hfile := hdescribes.fileSize.1
  rcases h.bytes hxbe hcrom (show sectionOf xbeimage + 0x08 + k < writtenSize cromimage.length by omega) with
    hgiven | hsize | hhash
  · exact Or.inl hgiven
  · exact Or.inr hsize
  · rw [HashField] at hhash
    omega

/-- When the hash is in the file, it is of given bytes: a hash function may hand through any byte. -/
theorem FunctionOfInputs.hashed (h : FunctionOfInputs xbeimage cromimage)
    (hhash : sectionOf xbeimage + 0x20 < writtenSize cromimage.length) {k : Nat}
    (hk : k < writtenSize cromimage.length - 0x1000) :
    Given xbeimage cromimage (fileAddress (filled (fun _ => 0) xbeimage cromimage) (writtenSize cromimage.length)
        (sectionOf xbeimage) + k) ∨
      SizeField (sectionOf xbeimage) (fileAddress (filled (fun _ => 0) xbeimage cromimage)
        (writtenSize cromimage.length) (sectionOf xbeimage) + k) := by
  by_contra hmissing
  obtain ⟨file, hruns, -⟩ := h.runs hxbe hcrom ⟨fun bytes _ => bytes.getD (4 + k) 0, fun _ _ => 0⟩
  have hbyte : ∀ xbe : Mem, file.getD (sectionOf xbeimage + 0x20) 0 =
      xbe (fileAddress (filled (fun _ => 0) xbeimage cromimage) (writtenSize cromimage.length)
        (sectionOf xbeimage) + k) := by
    intro xbe
    rw [(hruns xbe).2.2.2 _ hhash, hashedBuffer, Mem.write, if_pos (by omega), sectionHash]
    dsimp only
    rw [List.getD_append_right _ _ _ _ (by simp), List.length_map, List.length_range, Nat.add_sub_cancel_left,
      fileAddress_given (fun _ hk => h.address hxbe hcrom hk) xbe fun _ => 0, ← Mem.bytesFrom_shift,
      Mem.getD_bytesFrom _ hk, Nat.zero_add, sized_missing hmissing]
  have hzero := hbyte fun _ => 0
  have hone := hbyte fun _ => 1
  rw [hzero] at hone
  exact absurd hone (by decide)

/-- Neither the hash nor the other sizes change `ImageSize`. -/
theorem FunctionOfInputs.imageSize (h : FunctionOfInputs xbeimage cromimage) {j : Nat} (hj : j < 4) :
    ¬ HashField (sectionOf xbeimage) (0x10c + j) ∧
      sized (fun _ => 0) (writtenSize cromimage.length) (sectionOf xbeimage) (0x10c + j) =
        Mem.wordByte (writtenSize cromimage.length) j := by
  have hsize := writtenSize_eq hcrom
  have hbyte : ∀ H, hashedBuffer (filled (fun _ => 0) xbeimage cromimage) (writtenSize cromimage.length)
      (sectionOf xbeimage) H (0x10c + j) = Mem.wordByte (writtenSize cromimage.length) j := by
    intro H
    obtain ⟨file, hruns, hlength, hdescribes⟩ := h.runs hxbe hcrom H
    have hword := hdescribes.imageSize.2
    rw [hlength, Mem.loadWord_eq_iff (by omega)] at hword
    rw [← (hruns fun _ => 0).2.2.2 _ (by omega)]
    exact hword j hj
  have hapart : ¬ HashField (sectionOf xbeimage) (0x10c + j) := by
    intro hhash
    have hother := hbyte ⟨fun _ _ => Mem.wordByte (writtenSize cromimage.length) j + 1, fun _ _ => 0⟩
    rw [HashField] at hhash
    rw [hashedBuffer, Mem.write, if_pos (by omega)] at hother
    exact absurd (add_eq_left.mp hother) (by decide)
  refine ⟨hapart, ?_⟩
  rw [← hbyte ⟨fun _ _ => 0, fun _ _ => 0⟩, hashedBuffer_outside hapart]
  exact sized_imageSize hj _ _

/-- All files are the one that is written over a memory of zeros. -/
theorem Determined.file (h : Determined xbeimage cromimage) (H : Hashes) (crom xbe : Mem) :
    xberepair H crom xbe xbeimage cromimage = some (some
      ((hashedBuffer (filled (fun _ => 0) xbeimage cromimage) (writtenSize cromimage.length) (sectionOf xbeimage)
        H).bytesFrom 0 (writtenSize cromimage.length))) := by
  have haddress : ∀ k < 4, Given xbeimage cromimage (sectionOf xbeimage + 0x08 + k) ∨
      SizeField (sectionOf xbeimage) (sectionOf xbeimage + 0x08 + k) := by
    intro k hk
    have hfile := h.inFile
    rcases h.bytes (sectionOf xbeimage + 0x08 + k) (by omega) with hgiven | hsize | hhash
    · exact Or.inl hgiven
    · exact Or.inr hsize
    · rw [HashField] at hhash
      omega
  rw [xberepair_eq_some hxbe hcrom, sectionField_given h.header]
  refine ⟨h.fields, ?_, h.room, ?_⟩
  · rw [fileAddress_given haddress xbe fun _ => 0]
    exact h.address
  · apply Mem.bytesFrom_congr
    intro i hi
    rw [Nat.zero_add]
    by_cases hhash : HashField (sectionOf xbeimage) i
    · have hin : sectionOf xbeimage + 0x20 < writtenSize cromimage.length := by
        rw [HashField] at hhash
        omega
      rw [hashedBuffer, hashedBuffer, sectionHash_given haddress _ xbe (h.hashed hin)]
      rw [HashField] at hhash
      simp only [Mem.write]
      rw [if_pos (by omega), if_pos (by omega)]
    · rw [hashedBuffer_outside hhash, hashedBuffer_outside hhash]
      apply sized_given
      rcases h.bytes i hi with hgiven | hsize | hhash'
      · exact Or.inl hgiven
      · exact Or.inr hsize
      · exact absurd hhash' hhash

omit hxbe in
/-- Its headers describe it. -/
theorem Determined.describes (h : Determined xbeimage cromimage) (H : Hashes) :
    Describes ((hashedBuffer (filled (fun _ => 0) xbeimage cromimage) (writtenSize cromimage.length)
      (sectionOf xbeimage) H).bytesFrom 0 (writtenSize cromimage.length)) (sectionOf xbeimage) := by
  have hsize := writtenSize_eq hcrom
  have hinFile := h.inFile
  have himage := h.imageSize
  generalize writtenSize cromimage.length = n at *
  generalize sectionOf xbeimage = q at *
  have hword : ∀ a, a + 4 ≤ n → (∀ j < 4, ¬ HashField q (a + j)) →
      Mem.loadWord (((hashedBuffer (filled (fun _ => 0) xbeimage cromimage) n q H).bytesFrom 0 n).getD · 0) a =
        (sized (filled (fun _ => 0) xbeimage cromimage) n q).loadWord a := by
    intro a ha hapart
    apply Mem.loadWord_congr
    intro x lo hi
    obtain ⟨j, rfl⟩ := Nat.exists_eq_add_of_le lo
    rw [Mem.getD_bytesFrom _ (by omega), Nat.zero_add, hashedBuffer_outside (hapart j (by omega))]
  have hfield : ∀ k, k ≤ 0x0c → ∀ j < 4, ¬ HashField q (q + k + j) := by
    intro k hk j hj hhash
    rw [HashField] at hhash
    omega
  refine ⟨⟨?_, ?_⟩, ⟨?_, ?_⟩, ?_⟩
  · rw [Mem.bytesFrom_length]
    omega
  · rw [Mem.bytesFrom_length, hword 0x10c (by omega) fun j hj => (himage j hj).1, Mem.loadWord_eq_iff (by omega)]
    intro j hj
    rw [sized_imageSize hj _ fun _ => 0]
    exact (himage j hj).2
  · rw [Mem.bytesFrom_length]
    exact hinFile
  · rw [Mem.bytesFrom_length, hword (q + 0x0c) (by omega) (hfield _ (by decide)),
      sized_fileSize _ _ (by omega)]
  · rw [Mem.bytesFrom_length, hword (q + 0x04) (by omega) (hfield _ (by decide)), sized, loadWord_write _ _ (by omega)]

/-- For every template and every ROM that fit into the buffers: the file is a function of the two, and its headers
    describe it, exactly when the template determines it. -/
theorem xberepair_function_iff : FunctionOfInputs xbeimage cromimage ↔ Determined xbeimage cromimage := by
  constructor
  · intro h
    obtain ⟨file, hruns, hlength, hdescribes⟩ := h.runs hxbe hcrom ⟨fun _ _ => 0, fun _ _ => 0⟩
    obtain ⟨hfields, haddress, hroom, -⟩ := hruns fun _ => 0
    exact
      { header := h.header hxbe hcrom
        room := hroom
        fields := hfields
        inFile := hlength ▸ hdescribes.fileSize.1
        bytes := fun i hi => h.bytes hxbe hcrom hi
        address := haddress
        hashed := fun hhash k hk => h.hashed hxbe hcrom hhash hk
        imageSize := fun j hj => h.imageSize hxbe hcrom hj }
  · intro h H
    exact ⟨_, h.file hxbe hcrom H, h.describes hcrom H⟩

end Function

/-! ### Templates -/

/-- A template that covers the padding, whose first section header lies in its headers, behind `ImageSize`, and has its
    data behind them. -/
theorem determined_of_section (hcrom : cromimage.length ≤ 0x100000) (hcover : writtenSize cromimage.length ≤ xbeimage.length)
    (hxbe : xbeimage.length ≤ 0x103000) (hbehind : 0x110 ≤ sectionOf xbeimage) (hend : sectionOf xbeimage + 0x34 ≤ 0x1000)
    (hdata : Mem.loadWord (xbeimage.getD · 0) (sectionOf xbeimage + 0x08) = 0x1000) :
    Determined xbeimage cromimage := by
  have hsize := writtenSize_eq hcrom
  have hgiven : ∀ i < writtenSize cromimage.length, Given xbeimage cromimage i := fun i hi =>
    Or.inr (Or.inl (Nat.lt_of_lt_of_le hi hcover))
  have haddress : fileAddress (filled (fun _ => 0) xbeimage cromimage) (writtenSize cromimage.length)
      (sectionOf xbeimage) = 0x1000 := by
    rw [fileAddress, ← hdata]
    apply Mem.loadWord_congr
    intro x lo hi
    rw [sized, Mem.write_of_not_mem (by omega), Mem.write_of_not_mem (by omega), Mem.write_of_not_mem (by omega), filled,
      Mem.write_of_not_mem (by omega), Mem.write_of_not_mem (by omega)]
    have hbyte := @Mem.write_of_mem (Mem.fill (fun _ => 0) 0 4 0x00) 0 xbeimage.length x (xbeimage.getD · 0) (by omega)
    rw [Nat.zero_add] at hbyte
    exact hbyte
  constructor
  case header => omega
  case room => omega
  case fields => omega
  case inFile => omega
  case bytes => exact fun i hi => Or.inl (hgiven i hi)
  case address =>
    rw [haddress]
    omega
  case hashed =>
    rw [haddress]
    exact fun _ k hk => Or.inl (hgiven _ (by omega))
  case imageSize =>
    intro j hj
    refine ⟨fun hhash => ?_, ?_⟩
    · rw [HashField] at hhash
      omega
    · rw [sized, Mem.write_of_not_mem (by omega), Mem.write_of_not_mem (by omega)]
      exact Mem.write_of_mem hj

/-- The bytes of the headers: the base address 0x10000, the section headers at 0x178 and data at 0x1000. -/
def templateByte (i : Nat) : UInt8 :=
  if i = 0x106 then 0x01
  else if i = 0x120 then 0x78
  else if i = 0x121 then 0x01
  else if i = 0x122 then 0x01
  else if i = 0x185 then 0x10
  else 0

/-- A template with these headers. -/
def smallTemplate : List UInt8 := (List.range 0x3030).map templateByte

/-- A ROM of 17 bytes. -/
def smallRom : List UInt8 := (List.range 17).map UInt8.ofNat

theorem smallTemplate_byte {i : Nat} (h : i < 0x3030) : smallTemplate.getD i 0 = templateByte i := by
  rw [smallTemplate, List.getD_eq_getElem?_getD, List.getElem?_map, List.getElem?_range h]
  rfl

theorem smallTemplate_word {a : Nat} (h : a + 4 ≤ 0x3030) :
    Mem.loadWord (smallTemplate.getD · 0) a = Mem.loadWord templateByte a :=
  Mem.loadWord_congr fun x _ hi => smallTemplate_byte (by omega)

theorem smallTemplate_section : sectionOf smallTemplate = 0x17c := by
  rw [sectionOf, sectionField, smallTemplate_word (by decide), smallTemplate_word (by decide)]
  decide

/-- The ROM is put into the template. -/
theorem xberepair_function_small : FunctionOfInputs smallTemplate smallRom := by
  have hlength : smallTemplate.length = 0x3030 := by rw [smallTemplate, List.length_map, List.length_range]
  have hrom : smallRom.length = 17 := rfl
  have hwritten : writtenSize smallRom.length = 0x3030 := by decide
  apply (xberepair_function_iff (by rw [hlength]; decide) (by rw [hrom]; decide)).mpr
  apply determined_of_section
  · rw [hrom]
    decide
  · rw [hwritten, hlength]
  · rw [hlength]
    decide
  · rw [smallTemplate_section]
    decide
  · rw [smallTemplate_section]
    decide
  · rw [smallTemplate_section, smallTemplate_word (by decide)]
    decide

theorem blank_byte (n x : Nat) : (List.replicate n (0 : UInt8)).getD x 0 = 0 := by
  rw [List.getD_eq_getElem?_getD, List.getElem?_replicate]
  split <;> rfl

theorem blank_section (n : Nat) : sectionOf (List.replicate n 0) = 4 := by
  have hword : ∀ a, Mem.loadWord ((List.replicate n (0 : UInt8)).getD · 0) a = 0 := by
    intro a
    rw [Mem.loadWord, blank_byte, blank_byte, blank_byte, blank_byte]
    rfl
  rw [sectionOf, sectionField, hword, hword]
  decide

/-- A template that ends where the ROM begins: the 32 bytes behind it are those of the memory. -/
theorem padding_not_determined : ¬ FunctionOfInputs (List.replicate 0x3000 0) [] := by
  intro h
  have hbyte := h.bytes (by rw [List.length_replicate]; decide) (by decide) (show 0x3010 < writtenSize 0 by decide)
  rw [blank_section, Given, SizeField, HashField, List.length_replicate] at hbyte
  simp at hbyte

end Cromwell.Image
