/-
Module: Cromwell.Image.Agreement
Layer: Proofs
Purpose: The image builder and the boot loader agree. The writes of `romcopy` are followed through the two
  buffers: the loader with its header stays as it was when it was hashed, the packed system and its hash
  stand where the header says, and the identifier at the end touches neither. The loader then accepts what
  it finds, from the second bank that carries the system when the first one is damaged.
Imports: Cromwell.Image.Builder, Cromwell.Image.Loader
Trusted boundary: none
Main exports: Carries, Buildable, romcopy_spec, bootStartBiosLoader_enters, Image256.found, Image1024.found,
  images_accepted
-/
import Cromwell.Image.Builder
import Cromwell.Image.Loader

namespace Cromwell.Image

open ByteMemory
open Cromwell.BootLibrary (memcpy memcpy_eq)

/-! ### The loader in the image -/

/-- An image after its header has been written and its hash dumped. -/
def stamped (H : Hashes) (m : Mem) (pos : Nat) (s : Checksumstruct) : Mem :=
  (m.write pos 36 s.bytes).write pos 20
    (H.sha1 ((m.write pos 36 s.bytes).bytesFrom (pos + 20) (s.sizeRamcopy - 20)))

section Stamped

variable {H : Hashes} {m : Mem} {pos : Nat} {s : Checksumstruct}

theorem dumpChecksum_inside {size : Nat} (hsize : 20 ≤ s.sizeRamcopy) (header : pos + 36 ≤ size)
    (fits : pos + s.sizeRamcopy ≤ size) (small : size < 2 ^ 32) :
    dumpChecksum H ⟨size, m⟩ pos s = some ⟨size, stamped H m pos s⟩ := by
  have hpos : u32 (pos + 20) = pos + 20 := u32_of_lt (by omega)
  have hlen : sub32 s.sizeRamcopy 20 = s.sizeRamcopy - 20 := sub32_of_le (by omega) (by omega)
  simp only [dumpChecksum, hpos, hlen]
  rw [Buffer.write_inside (by omega)]
  simp only [Option.bind_eq_bind, Option.bind_some]
  rw [Buffer.slice_inside (by omega)]
  simp only [Option.bind_some]
  rw [Buffer.write_inside (by omega), Mem.bytesFrom_shift, stamped]

theorem stamped_header {i : Nat} (lo : 20 ≤ i) (hi : i < 36) : stamped H m pos s (pos + i) = s.bytes i := by
  rw [stamped, Mem.write_of_not_mem (by omega), Mem.write_of_mem hi]

/-- The dumped hash is the hash of what stands behind it. -/
theorem stamped_checksum {i : Nat} (hi : i < 20) :
    stamped H m pos s (pos + i) =
      H.sha1 ((stamped H m pos s).bytesFrom (pos + 20) (s.sizeRamcopy - 20)) i := by
  rw [stamped, Mem.write_of_mem hi, Mem.bytesFrom_write _ _ (Or.inr (Nat.le_refl _))]

end Stamped

/-! ### The identifier -/

/-- The identifier lies in the last 64 bytes and ends with the MD5 of everything before it. -/
theorem writeBiosIdentifier_inside (H : Hashes) (m : Mem) (size : Nat) (room : 64 ≤ size) :
    ∃ m', writeBiosIdentifier H ⟨size, m⟩ size = some ⟨size, m'⟩ ∧
      (∀ x < size - 64, m' x = m x) ∧
      ∀ i < 16, m' (size - 16 + i) = H.md5 (m'.bytesFrom 0 (size - 16)) i := by
  have hname : biosName.length = 18 := rfl
  simp only [writeBiosIdentifier, hname]
  rw [Buffer.write_inside (by omega)]
  simp only [Option.bind_eq_bind, Option.bind_some]
  rw [Buffer.fill_inside (by omega)]
  simp only [Option.bind_some]
  rw [Buffer.write_inside (by omega)]
  simp only [Option.bind_some]
  rw [Buffer.write_inside (by omega)]
  simp only [Option.bind_some]
  rw [Buffer.fill_inside (by omega)]
  simp only [Option.bind_some]
  rw [Buffer.fill_inside (by omega)]
  simp only [Option.bind_some]
  rw [Buffer.slice_inside (by omega)]
  simp only [Option.bind_some]
  rw [Buffer.write_inside (by omega), Mem.bytesFrom_shift]
  refine ⟨_, rfl, fun x hx => ?_, fun i hi => ?_⟩
  · rw [Mem.write_of_not_mem (by omega), Mem.fill_of_not_mem (by omega), Mem.fill_of_not_mem (by omega),
      Mem.write_of_not_mem (by omega), Mem.write_of_not_mem (by omega), Mem.fill_of_not_mem (by omega),
      Mem.write_of_not_mem (by omega)]
  · rw [show size - 16 + i = size - 64 + 48 + i by omega, Mem.write_of_mem hi]
    -- the digest is written behind the bytes that it is of
    rw [Mem.bytesFrom_write _ _ (Or.inl (by omega))]

/-! ### The two images -/

/-- At `at` an image carries a payload of `n` bytes behind its hash. -/
structure Carries (H : Hashes) (m : Mem) (place n : Nat) (payload : Nat → UInt8) : Prop where
  hash : ∀ i < 20, m (place + i) = H.sha1 (Mem.bytesFrom payload 0 n) i
  payload : ∀ i < n, m (place + 20 + i) = payload i

/-- What `romcopy` works with: the loader fits below the place that it gives to the packed system, and the
    packed system fits below the top of the bank. -/
structure RomFits (blbin cromimage : List UInt8) : Prop where
  header : 36 ≤ (bootloaderstruct blbin).sizeRamcopy
  noWrap : bootloaderpos blbin + (bootloaderstruct blbin).sizeRamcopy + 0x110 < 2 ^ 32
  fits : compressedImageStart (bootloaderpos blbin) (bootloaderstruct blbin).sizeRamcopy + 20 +
    cromimage.length ≤ 0x3fe00

/-- What keeps every access of `romcopy` inside its buffers: the header and the part of the loader that is hashed lie
    in the loader file, and the packed system fits below the top of the bank. -/
structure Buildable (blbin cromimage : List UInt8) : Prop where
  header : bootloaderpos blbin + 36 ≤ 0x40000
  hashed : 20 ≤ (bootloaderstruct blbin).sizeRamcopy
  loader : bootloaderpos blbin + (bootloaderstruct blbin).sizeRamcopy ≤ 0x40000
  fits : compressedImageStart (bootloaderpos blbin) (bootloaderstruct blbin).sizeRamcopy + 20 +
    cromimage.length ≤ 0x3fe00

/-- The first bank of an image when the loader has been copied into it. -/
def loaderBank (blbin : List UInt8) : Mem := Mem.write (fun _ => 0) 0 0x40000 (clearedImage blbin)

/-- `bootloaderstruct` with the place and the size of the packed system. -/
def headerOf (blbin cromimage : List UInt8) : Checksumstruct :=
  { bootloaderstruct blbin with
    compressedImageStart := compressedImageStart (bootloaderpos blbin) (bootloaderstruct blbin).sizeRamcopy
    compressedImageSize := cromimage.length }

theorem compressedImageStart_eq {pos size : Nat} (noWrap : pos + size + 0x110 < 2 ^ 32) :
    compressedImageStart pos size = (pos + size) / 16 * 16 + 0x110 := by
  have hmask : (pos + size) &&& 0xfffffff0 = (pos + size) / 16 * 16 :=
    and_highMask (k := 4) (by omega) (by decide)
  have hsum : u32 (pos + size) = pos + size := u32_of_lt (by omega)
  simp only [compressedImageStart]
  rw [hsum, hmask, u32_of_lt (by omega : (pos + size) / 16 * 16 + 0x10 < 2 ^ 32), u32_of_lt (by omega)]

variable {H : Hashes} {blbin cromimage : List UInt8}

theorem Carries.congr {m m' : Mem} {place n : Nat} {payload : Nat → UInt8} (h : Carries H m place n payload)
    (same : ∀ x, place ≤ x → x < place + 20 + n → m' x = m x) : Carries H m' place n payload where
  hash := fun i hi => (same _ (by omega) (by omega)).trans (h.hash i hi)
  payload := fun i hi => (same _ (by omega) (by omega)).trans (h.payload i hi)

/-- The hash and then the payload. -/
theorem carries_hash_payload (m : Mem) (place n : Nat) (payload : Nat → UInt8) :
    Carries H ((m.write place 20 (H.sha1 (Mem.bytesFrom payload 0 n))).write (place + 20) n payload)
      place n payload where
  hash := fun i hi => by
    rw [Mem.write_of_not_mem (by omega), Mem.write_of_mem hi]
  payload := fun i hi => Mem.write_of_mem hi

section Banks

variable {m : Mem} {start n : Nat}

theorem loaderBanks_spec (hstart : start ≤ 0x3fe00) :
    ∃ m', loaderBanks ⟨0x100000, m⟩ start = some ⟨0x100000, m'⟩ ∧ ∀ x < start, m' (0xc0000 + x) = m x := by
  have hlen : sub32 (sub32 0x40000 start) 512 = 0x3fe00 - start := by
    have hfirst : sub32 0x40000 start = 0x40000 - start := sub32_of_le (by omega) (by decide)
    rw [hfirst, sub32_of_le (by omega) (by omega)]
    omega
  simp only [loaderBanks, hlen]
  rw [Buffer.fill_inside (by omega)]
  simp only [Option.bind_eq_bind, Option.bind_some]
  rw [Buffer.slice_inside (by omega)]
  simp only [Option.bind_some]
  rw [Buffer.write_inside (by omega)]
  refine ⟨_, rfl, fun x hx => ?_⟩
  rw [Mem.write_of_mem (by omega), Nat.zero_add, Mem.fill_of_not_mem (by omega)]

theorem systemBank_spec (payload : Nat → UInt8) (fits : start + 20 + n ≤ 0x3fe00) :
    ∃ m', systemBank H ⟨0x40000, m⟩ start n payload =
        some (⟨0x40000, m'⟩, H.sha1 (Mem.bytesFrom payload 0 n)) ∧
      (∀ x < start, m' x = m x) ∧ Carries H m' start n payload := by
  have e1 : u32 (start + 20 + n) = start + 20 + n := u32_of_lt (by omega)
  have e2 : u32 (start + 20) = start + 20 := u32_of_lt (by omega)
  have hlen : sub32 (sub32 0x40000 (start + 20 + n)) 512 = 0x3fe00 - (start + 20 + n) := by
    have hfirst : sub32 0x40000 (start + 20 + n) = 0x40000 - (start + 20 + n) :=
      sub32_of_le (by omega) (by decide)
    rw [hfirst, sub32_of_le (by omega) (by omega)]
    omega
  have hhashed : ∀ m₁ : Mem, (m₁.write (start + 20) n payload).bytesFrom (start + 20) n =
      Mem.bytesFrom payload 0 n := fun m₁ =>
    Mem.bytesFrom_congr fun i hi => by rw [Mem.write_of_mem hi, Nat.zero_add]
  simp only [systemBank, e1, e2, hlen]
  rw [Buffer.fill_inside (by omega)]
  simp only [Option.bind_eq_bind, Option.bind_some]
  rw [Buffer.write_inside (by omega)]
  simp only [Option.bind_some]
  rw [Buffer.slice_inside (by omega)]
  simp only [Option.bind_some]
  rw [Buffer.write_inside (by omega), Mem.bytesFrom_shift, hhashed]
  refine ⟨_, rfl, fun x hx => ?_, fun i hi => Mem.write_of_mem hi, fun i hi => ?_⟩
  · rw [Mem.write_of_not_mem (by omega), Mem.write_of_not_mem (by omega), Mem.fill_of_not_mem (by omega)]
  · rw [Mem.write_of_not_mem (by omega), Mem.write_of_mem hi]

theorem systemBanks_spec (payload : Nat → UInt8) (fits : start + 20 + n ≤ 0x3fe00) :
    ∃ m', systemBanks ⟨0x100000, m⟩ start n payload (H.sha1 (Mem.bytesFrom payload 0 n)) =
        some ⟨0x100000, m'⟩ ∧
      (∀ x, 0xc0000 ≤ x → m' x = m x) ∧
      Carries H m' (0x40000 + start) n payload ∧ Carries H m' (0x80000 + start) n payload := by
  have e1 : u32 (start + 0x40000) = 0x40000 + start := (u32_of_lt (by omega)).trans (by omega)
  have e2 : u32 (start + 20 + 0x40000) = 0x40000 + start + 20 := (u32_of_lt (by omega)).trans (by omega)
  have e3 : u32 (start + 0x80000) = 0x80000 + start := (u32_of_lt (by omega)).trans (by omega)
  have e4 : u32 (start + 20 + 0x80000) = 0x80000 + start + 20 := (u32_of_lt (by omega)).trans (by omega)
  simp only [systemBanks, e1, e2, e3, e4]
  rw [Buffer.fill_inside (by omega)]
  simp only [Option.bind_eq_bind, Option.bind_some]
  rw [Buffer.write_inside (by omega)]
  simp only [Option.bind_some]
  rw [Buffer.write_inside (by omega)]
  simp only [Option.bind_some]
  rw [Buffer.write_inside (by omega)]
  simp only [Option.bind_some]
  rw [Buffer.write_inside (by omega)]
  refine ⟨_, rfl, fun x hx => ?_, ?_, carries_hash_payload _ _ _ _⟩
  · rw [Mem.write_of_not_mem (by omega), Mem.write_of_not_mem (by omega), Mem.write_of_not_mem (by omega),
      Mem.write_of_not_mem (by omega), Mem.fill_of_not_mem (by omega)]
  · refine (carries_hash_payload (m.fill 0x40000 0x80000 0xff) (0x40000 + start) n payload).congr
      fun x lo hi => ?_
    rw [Mem.write_of_not_mem (by omega), Mem.write_of_not_mem (by omega)]

end Banks

/-- What a 256K image with the loader at `pos` and the system at `start` holds. -/
structure Image256 (H : Hashes) (bank : Mem) (pos start n : Nat) (s : Checksumstruct)
    (payload : Nat → UInt8) (f : Mem) : Prop where
  loader : ∀ x < start, f x = stamped H bank pos { s with biossizeType := 0 } x
  system : Carries H f start n payload
  md5 : ∀ i < 16, f (0x40000 - 16 + i) = H.md5 (f.bytesFrom 0 (0x40000 - 16)) i

/-- What a 1MB image holds: the loader in the last bank, the system in the two banks between. -/
structure Image1024 (H : Hashes) (bank : Mem) (pos start n : Nat) (s : Checksumstruct)
    (payload : Nat → UInt8) (g : Mem) : Prop where
  loader : ∀ x < start, g (0xc0000 + x) = stamped H bank pos { s with biossizeType := 1 } x
  system1 : Carries H g (0x40000 + start) n payload
  system2 : Carries H g (0x80000 + start) n payload
  md5 : ∀ i < 16, g (0x100000 - 16 + i) = H.md5 (g.bytesFrom 0 (0x100000 - 16)) i

theorem assemble_spec (H : Hashes) (image : Mem) {pos start n : Nat} {s : Checksumstruct}
    (payload : Nat → UInt8) (header : pos + 36 ≤ 0x40000) (hashed : 20 ≤ s.sizeRamcopy)
    (loader : pos + s.sizeRamcopy ≤ 0x40000) (fits : start + 20 + n ≤ 0x3fe00) :
    ∃ f g, assemble H image pos start n s payload = some (⟨0x40000, f⟩, ⟨0x100000, g⟩) ∧
      Image256 H (Mem.write (fun _ => 0) 0 0x40000 image) pos start n s payload f ∧
      Image1024 H (Mem.write (fun _ => 0) 0 0x40000 image) pos start n s payload g := by
  have hcopy : ∀ size, 0x40000 ≤ size → (Buffer.zeros size).write 0 0x40000 image =
      some ⟨size, Mem.write (fun _ => 0) 0 0x40000 image⟩ := fun size lo => Buffer.write_inside (by omega)
  have hdump : ∀ (m : Mem) (size type : Nat), 0x40000 ≤ size → size < 2 ^ 32 →
      dumpChecksum H ⟨size, m⟩ pos { s with biossizeType := type } =
        some ⟨size, stamped H m pos { s with biossizeType := type }⟩ := fun m size type lo hi =>
    dumpChecksum_inside hashed (Nat.le_trans header lo) (Nat.le_trans loader lo) hi
  generalize hbank : Mem.write (fun _ => 0) 0 0x40000 image = bank at hcopy ⊢
  obtain ⟨g₁, hg₁, hbank3⟩ := loaderBanks_spec (m := stamped H bank pos { s with biossizeType := 1 })
    (show start ≤ 0x3fe00 by omega)
  obtain ⟨f₁, hf₁, hf₁loader, hf₁system⟩ := systemBank_spec (H := H)
    (m := stamped H bank pos { s with biossizeType := 0 }) payload fits
  obtain ⟨g₂, hg₂, hg₂loader, hg₂system1, hg₂system2⟩ := systemBanks_spec (H := H) (m := g₁) payload fits
  obtain ⟨f₂, hf₂, hf₂low, hf₂md5⟩ := writeBiosIdentifier_inside H f₁ 0x40000 (by norm_num)
  obtain ⟨g₃, hg₃, hg₃low, hg₃md5⟩ := writeBiosIdentifier_inside H g₂ 0x100000 (by norm_num)
  have hrun : assemble H image pos start n s payload = some (⟨0x40000, f₂⟩, ⟨0x100000, g₃⟩) := by
    unfold assemble
    refine Option.bind_eq_some_iff.mpr ⟨_, hcopy 0x40000 (by norm_num), ?_⟩
    refine Option.bind_eq_some_iff.mpr ⟨_, hcopy 0x100000 (by norm_num), ?_⟩
    refine Option.bind_eq_some_iff.mpr ⟨_, hdump bank 0x40000 0 (by norm_num) (by norm_num), ?_⟩
    refine Option.bind_eq_some_iff.mpr ⟨_, hdump bank 0x100000 1 (by norm_num) (by norm_num), ?_⟩
    refine Option.bind_eq_some_iff.mpr ⟨_, hg₁, ?_⟩
    refine Option.bind_eq_some_iff.mpr ⟨_, hf₁, ?_⟩
    refine Option.bind_eq_some_iff.mpr ⟨_, hg₂, ?_⟩
    refine Option.bind_eq_some_iff.mpr ⟨_, hf₂, ?_⟩
    refine Option.bind_eq_some_iff.mpr ⟨_, hg₃, rfl⟩
  refine ⟨f₂, g₃, hrun, ⟨fun x hx => ?_, ?_, hf₂md5⟩, ⟨fun x hx => ?_, ?_, ?_, hg₃md5⟩⟩
  · rw [hf₂low x (by omega), hf₁loader x hx]
  · exact hf₁system.congr fun x lo hi => hf₂low x (by omega)
  · rw [hg₃low _ (by omega), hg₂loader _ (by omega), hbank3 x hx]
  · exact hg₂system1.congr fun x lo hi => hg₃low x (by omega)
  · exact hg₂system2.congr fun x lo hi => hg₃low x (by omega)

theorem RomFits.buildable (ok : RomFits blbin cromimage) : Buildable blbin cromimage := by
  have hheader := ok.header
  have hfits := ok.fits
  have hstart := compressedImageStart_eq ok.noWrap
  exact ⟨by omega, by omega, by omega, hfits⟩

/-- What the two files of `romcopy` hold. -/
theorem romcopy_spec (H : Hashes) (ok : Buildable blbin cromimage) :
    let pos := bootloaderpos blbin
    let start := compressedImageStart pos (bootloaderstruct blbin).sizeRamcopy
    ∃ f g, romcopy H blbin cromimage = some (⟨0x40000, f⟩, ⟨0x100000, g⟩) ∧
      Image256 H (loaderBank blbin) pos start cromimage.length (headerOf blbin cromimage)
        (cromimage.getD · 0) f ∧
      Image1024 H (loaderBank blbin) pos start cromimage.length (headerOf blbin cromimage)
        (cromimage.getD · 0) g := by
  intro pos start
  have hfits : start + 20 + cromimage.length ≤ 0x3fe00 := ok.fits
  have hrom : u32 cromimage.length = cromimage.length := u32_of_lt (by omega)
  have hpayload : (fun i => Mem.write (fun _ => 0) 0 cromimage.length (cromimage.getD · 0) (0 + i)) =
      (cromimage.getD · 0) := by
    funext i
    simp only [Mem.write, Nat.zero_add, Nat.zero_le, true_and, Nat.sub_zero]
    split
    · rfl
    · rename_i hlong
      rw [List.getD_eq_default _ _ (by omega)]
  obtain ⟨f, g, hrun, hf, hg⟩ := assemble_spec H (clearedImage blbin) (s := headerOf blbin cromimage)
    (cromimage.getD · 0) ok.header ok.hashed ok.loader hfits
  refine ⟨f, g, ?_, hf, hg⟩
  unfold romcopy
  rw [hrom]
  refine Option.bind_eq_some_iff.mpr ⟨_, Buffer.write_inside (by omega), ?_⟩
  refine Option.bind_eq_some_iff.mpr ⟨_, Buffer.slice_inside ok.header, ?_⟩
  refine Option.bind_eq_some_iff.mpr ⟨_, Buffer.slice_inside (by omega), ?_⟩
  rw [hpayload]
  exact hrun

/-! ### The loader -/

theorem digestsEqual_iff (a b : Nat → UInt8) : digestsEqual a b = true ↔ ∀ i < 20, a i = b i := by
  simp only [digestsEqual, List.all_eq_true, List.mem_range, beq_iff_eq]

section Attempt

variable {sha1 : List UInt8 → Nat → UInt8} {start n bank : Nat} {m : Mem}

variable (sha1 m) in
/-- The flash lies above the RAM that an attempt writes. -/
theorem loadAttempt_spec (fits : start + 20 + n ≤ 0x3fe00) (hbank : bank ≤ 3) :
    (∀ x, 0xfff00000 ≤ x → (loadAttempt sha1 start n bank m).1 x = m x) ∧
    (∀ i < n, (loadAttempt sha1 start n bank m).1 (cromwellCompressTemploc + i) =
      m (buildinflashFlash bank + start + 20 + i)) ∧
    (loadAttempt sha1 start n bank m).2 = digestsEqual (fun i => m (buildinflashFlash bank + start + i))
      (sha1 (m.bytesFrom (buildinflashFlash bank + start + 20) n)) := by
  have hbase : buildinflashFlash bank = 0xfff00000 + bank * 0x40000 := rfl
  have e1 : u32 (buildinflashFlash bank + start) = buildinflashFlash bank + start := u32_of_lt (by omega)
  have e2 : u32 (buildinflashFlash bank + start + 20) = buildinflashFlash bank + start + 20 :=
    u32_of_lt (by omega)
  have hcopy : memcpy m cromwellCompressTemploc (buildinflashFlash bank + start + 20) n =
      m.copy cromwellCompressTemploc (buildinflashFlash bank + start + 20) n := by
    refine memcpy_eq m (Or.inl ?_)
    simp only [cromwellCompressTemploc]
    omega
  have hdata : ∀ i < n, ((m.copy cromwellCompressTemploc (buildinflashFlash bank + start + 20) n).fill
      (cromwellCompressTemploc + n) (20 * 1024) 0x00) (cromwellCompressTemploc + i) =
        m (buildinflashFlash bank + start + 20 + i) := by
    intro i hi
    rw [Mem.fill_of_not_mem (by omega), Mem.copy_of_mem hi]
  simp only [loadAttempt, e1, e2, hcopy]
  refine ⟨fun x hx => ?_, hdata, ?_⟩
  · rw [Mem.fill_of_not_mem (by simp only [cromwellCompressTemploc]; omega)]
    simp only [Mem.copy]
    rw [if_neg (by simp only [cromwellCompressTemploc]; omega)]
  · rw [Mem.bytesFrom_congr hdata]

/-- A bank that carries a payload passes the check. -/
theorem loadAttempt_carries {H : Hashes} {payload : Nat → UInt8} (fits : start + 20 + n ≤ 0x3fe00)
    (hbank : bank ≤ 3) (carries : Carries H m (buildinflashFlash bank + start) n payload) :
    (loadAttempt H.sha1 start n bank m).2 = true ∧
      ∀ i < n, (loadAttempt H.sha1 start n bank m).1 (cromwellCompressTemploc + i) = payload i := by
  obtain ⟨-, hdata, hcheck⟩ := loadAttempt_spec H.sha1 m fits hbank
  have hpayload : m.bytesFrom (buildinflashFlash bank + start + 20) n = Mem.bytesFrom payload 0 n :=
    Mem.bytesFrom_congr fun i hi => by rw [carries.payload i hi, Nat.zero_add]
  refine ⟨?_, fun i hi => (hdata i hi).trans (carries.payload i hi)⟩
  rw [hcheck, digestsEqual_iff, hpayload]
  exact carries.hash

/-- The result of the check depends on the flash only. -/
theorem loadAttempt_same {m' : Mem} (fits : start + 20 + n ≤ 0x3fe00) (hbank : bank ≤ 3)
    (same : ∀ x, 0xfff00000 ≤ x → m' x = m x) :
    (loadAttempt sha1 start n bank m').2 = (loadAttempt sha1 start n bank m).2 := by
  have hbase : buildinflashFlash bank = 0xfff00000 + bank * 0x40000 := rfl
  have hhash : m'.bytesFrom (buildinflashFlash bank + start + 20) n =
      m.bytesFrom (buildinflashFlash bank + start + 20) n :=
    Mem.bytesFrom_congr fun i _ => same _ (by omega)
  have hsum : (fun i => m' (buildinflashFlash bank + start + i)) =
      fun i => m (buildinflashFlash bank + start + i) := by
    funext i
    exact same _ (by omega)
  rw [(loadAttempt_spec sha1 m' fits hbank).2.2, (loadAttempt_spec sha1 m fits hbank).2.2, hhash, hsum]

/-- An attempt at a bank that carries a payload ends the search. -/
theorem loadLoop_found {H : Hashes} {payload : Nat → UInt8} {type left loadretry lastbank : Nat}
    (fits : start + 20 + n ≤ 0x3fe00) (hbank : flashBank type loadretry lastbank = bank) (hle : bank ≤ 3)
    (carries : Carries H m (buildinflashFlash bank + start) n payload) :
    ∃ data, loadLoop H.sha1 start n type (left + 1) loadretry lastbank m =
        .decompress cromwellMemoryPos data n bank loadretry ∧ ∀ i < n, data i = payload i := by
  obtain ⟨hgood, hdata⟩ := loadAttempt_carries fits hle carries
  refine ⟨_, ?_, hdata⟩
  simp only [loadLoop, hbank, hgood, if_true]

theorem loadLoop_failed {type left loadretry lastbank : Nat} (hbank : flashBank type loadretry lastbank = bank)
    (bad : (loadAttempt sha1 start n bank m).2 = false) :
    loadLoop sha1 start n type (left + 1) loadretry lastbank m =
      loadLoop sha1 start n type left (loadretry + 1) bank (loadAttempt sha1 start n bank m).1 := by
  simp only [loadLoop, hbank, bad, Bool.false_eq_true, if_false]

/-- With a bad image in bank 1 the search gets to its twenty-fifth repetition with the flash unchanged. -/
theorem loadLoop_skips_bank1 (fits : start + 20 + n ≤ 0x3fe00) : ∀ (k : Nat) (m : Mem), k ≤ 24 →
    (loadAttempt sha1 start n 1 m).2 = false →
    ∃ m', (∀ x, 0xfff00000 ≤ x → m' x = m x) ∧
      loadLoop sha1 start n 1 (75 + k) (25 - k) 1 m = loadLoop sha1 start n 1 75 25 1 m'
  | 0, m, _, _ => ⟨m, fun _ _ => rfl, rfl⟩
  | k + 1, m, hk, bad => by
      have hbank : flashBank 1 (25 - (k + 1)) 1 = 1 := by
        rw [flashBank, if_neg (by decide), if_pos rfl, if_neg (by omega), if_neg (by omega),
          if_neg (by omega), if_neg (by omega)]
      have hframe := (loadAttempt_spec sha1 m fits (show 1 ≤ 3 by decide)).1
      have bad' : (loadAttempt sha1 start n 1 (loadAttempt sha1 start n 1 m).1).2 = false := by
        rw [loadAttempt_same fits (by decide) hframe]
        exact bad
      obtain ⟨m', hsame, hrun⟩ := loadLoop_skips_bank1 fits k (loadAttempt sha1 start n 1 m).1 (by omega) bad'
      refine ⟨m', fun x hx => (hsame x hx).trans (hframe x hx), ?_⟩
      rw [show 75 + (k + 1) = 75 + k + 1 by omega, loadLoop_failed hbank bad,
        show 25 - (k + 1) + 1 = 25 - k by omega]
      exact hrun

end Attempt

/-! ### Builder and loader -/

/-- The 256K image stands in bank 3. -/
def Placed256 (f m : Mem) : Prop := ∀ i < 0x40000, m (buildinflashFlash 3 + i) = f i

/-- The 1MB image stands in the four banks. -/
def Placed1024 (g m : Mem) : Prop := ∀ i < 0x100000, m (buildinflashFlash 0 + i) = g i

/-- The 1MB image stands in the four banks, with anything in bank 1. -/
def PlacedBut1 (g m : Mem) : Prop :=
  ∀ i < 0x100000, ¬ (0x40000 ≤ i ∧ i < 0x80000) → m (buildinflashFlash 0 + i) = g i

/-- The startup code has copied the loader from the top bank to RAM. -/
def Copied2bl (blbin : List UInt8) (m : Mem) : Prop :=
  ∀ i < (bootloaderstruct blbin).sizeRamcopy,
    m (programmMemory2bl + i) = m (buildinflashFlash 3 + bootloaderpos blbin + i)

/-- The loader in RAM passes its own check and reads back what the builder put into its header. -/
theorem bootStartBiosLoader_enters (H : Hashes) (m bank : Mem) (pos : Nat) (s : Checksumstruct)
    (header : 36 ≤ s.sizeRamcopy) (hsize : s.sizeRamcopy < 2 ^ 32) (hstart : s.compressedImageStart < 2 ^ 32)
    (hlen : s.compressedImageSize < 2 ^ 32) (htype : s.biossizeType < 2 ^ 32)
    (copied : ∀ i < s.sizeRamcopy, m (programmMemory2bl + i) = stamped H bank pos s (pos + i)) :
    bootStartBiosLoader H.sha1 m =
      loadLoop H.sha1 s.compressedImageStart s.compressedImageSize s.biossizeType 100 0 3 m := by
  have hword : ∀ (k w : Nat), 20 ≤ k → k + 4 ≤ 36 → w < 2 ^ 32 → (∀ i < 4, s.bytes (k + i) = Mem.wordByte w i) →
      m.loadWord (programmMemory2bl + k) = w := by
    intro k w lo hi hw hbytes
    rw [Mem.loadWord_eq_iff hw]
    intro i hi4
    rw [Nat.add_assoc, copied (k + i) (by omega), stamped_header (by omega) (by omega)]
    exact hbytes i hi4
  have e20 : m.loadWord (programmMemory2bl + 20) = s.sizeRamcopy := by
    refine hword 20 _ (by decide) (by decide) hsize fun i hi => ?_
    rw [Checksumstruct.bytes, if_neg (by omega), if_pos (by omega), Nat.add_sub_cancel_left]
  have e24 : m.loadWord (programmMemory2bl + 24) = s.compressedImageStart := by
    refine hword 24 _ (by decide) (by decide) hstart fun i hi => ?_
    rw [Checksumstruct.bytes, if_neg (by omega), if_neg (by omega), if_pos (by omega),
      Nat.add_sub_cancel_left]
  have e28 : m.loadWord (programmMemory2bl + 28) = s.compressedImageSize := by
    refine hword 28 _ (by decide) (by decide) hlen fun i hi => ?_
    rw [Checksumstruct.bytes, if_neg (by omega), if_neg (by omega), if_neg (by omega), if_pos (by omega),
      Nat.add_sub_cancel_left]
  have e32 : m.loadWord (programmMemory2bl + 32) = s.biossizeType := by
    refine hword 32 _ (by decide) (by decide) htype fun i hi => ?_
    rw [Checksumstruct.bytes, if_neg (by omega), if_neg (by omega), if_neg (by omega), if_neg (by omega),
      Nat.add_sub_cancel_left]
  have hlen20 : sub32 s.sizeRamcopy 20 = s.sizeRamcopy - 20 := sub32_of_le (by omega) hsize
  have hcheck : digestsEqual (fun i => m (programmMemory2bl + i))
      (H.sha1 (m.bytesFrom (programmMemory2bl + 20) (s.sizeRamcopy - 20))) = true := by
    rw [digestsEqual_iff]
    intro i hi
    have hhash : m.bytesFrom (programmMemory2bl + 20) (s.sizeRamcopy - 20) =
        (stamped H bank pos s).bytesFrom (pos + 20) (s.sizeRamcopy - 20) :=
      Mem.bytesFrom_congr fun j hj => by
        rw [Nat.add_assoc, copied (20 + j) (by omega), Nat.add_assoc]
    show m (programmMemory2bl + i) = _
    rw [copied i (by omega), stamped_checksum hi, hhash]
  simp only [bootStartBiosLoader, e20, e24, e28, e32, hlen20, hcheck, if_true]

/-! ### What the loader finds -/

section Find

variable {H : Hashes} {blbin cromimage : List UInt8} {m f g : Mem} {start : Nat}

/-- With the loader of `romcopy` in RAM and in the top bank, the search begins. -/
theorem loader_searches (ok : RomFits blbin cromimage) {type : Nat}
    (hst : start = compressedImageStart (bootloaderpos blbin) (bootloaderstruct blbin).sizeRamcopy)
    (htype : type < 2 ^ 32) (hcopied : Copied2bl blbin m)
    (hbank : ∀ x < start, m (buildinflashFlash 3 + x) = stamped H (loaderBank blbin) (bootloaderpos blbin)
        { headerOf blbin cromimage with biossizeType := type } x) :
    bootStartBiosLoader H.sha1 m = loadLoop H.sha1 start cromimage.length type 100 0 3 m := by
  subst hst
  have hheader := ok.header
  have hfits := ok.fits
  have hnoWrap := ok.noWrap
  have hstart := compressedImageStart_eq ok.noWrap
  refine bootStartBiosLoader_enters H m (loaderBank blbin) (bootloaderpos blbin)
    { headerOf blbin cromimage with biossizeType := type } hheader
    (show (bootloaderstruct blbin).sizeRamcopy < 2 ^ 32 by omega)
    (show compressedImageStart (bootloaderpos blbin) (bootloaderstruct blbin).sizeRamcopy < 2 ^ 32 by omega)
    (show cromimage.length < 2 ^ 32 by omega) htype fun i hi => ?_
  have hi' : i < (bootloaderstruct blbin).sizeRamcopy := hi
  rw [hcopied i hi', Nat.add_assoc]
  exact hbank _ (by omega)

/-- A bank of an image that carries the system, in any memory that has that bank. -/
theorem carries_in_bank {k n : Nat} {payload : Nat → UInt8} (off : Nat) (fits : start + 20 + n ≤ 0x3fe00)
    (hm : ∀ i < 0x40000, m (buildinflashFlash k + i) = g (off + i)) (h : Carries H g (off + start) n payload) :
    Carries H m (buildinflashFlash k + start) n payload := by
  refine ⟨fun i hi => ?_, fun i hi => ?_⟩
  · rw [Nat.add_assoc, hm _ (by omega), ← h.hash i hi, Nat.add_assoc]
  · rw [Nat.add_assoc, Nat.add_assoc, hm _ (by omega), ← h.payload i hi, Nat.add_assoc, Nat.add_assoc]

/-- The banks lie one behind the other. -/
theorem buildinflashFlash_add (k i : Nat) : buildinflashFlash k + i = buildinflashFlash 0 + (k * 0x40000 + i) := by
  have hbase : ∀ k, buildinflashFlash k = 0xfff00000 + k * 0x40000 := fun _ => rfl
  rw [hbase, hbase]
  omega

/-- The system of the 256K image is found in bank 3. -/
theorem Image256.found (ok : RomFits blbin cromimage)
    (hst : start = compressedImageStart (bootloaderpos blbin) (bootloaderstruct blbin).sizeRamcopy)
    (hf : Image256 H (loaderBank blbin) (bootloaderpos blbin) start cromimage.length (headerOf blbin cromimage)
      (cromimage.getD · 0) f) (hm : Placed256 f m) (hcopied : Copied2bl blbin m) :
    ∃ data, bootStartBiosLoader H.sha1 m = .decompress cromwellMemoryPos data cromimage.length 3 0 ∧
      ∀ i < cromimage.length, data i = cromimage.getD i 0 := by
  have hfits := ok.fits
  rw [← hst] at hfits
  rw [loader_searches ok hst (by decide) hcopied fun x hx => (hm x (by omega)).trans (hf.loader x hx)]
  have hbank : ∀ i < 0x40000, m (buildinflashFlash 3 + i) = f (0 + i) := by
    intro i hi
    rw [Nat.zero_add]
    exact hm i hi
  have hcarries : Carries H f (0 + start) cromimage.length (cromimage.getD · 0) := by
    rw [Nat.zero_add]
    exact hf.system
  exact loadLoop_found hfits rfl (by decide) (carries_in_bank 0 hfits hbank hcarries)

/-- The system of the 1MB image is found in bank 1. -/
theorem Image1024.found (ok : RomFits blbin cromimage)
    (hst : start = compressedImageStart (bootloaderpos blbin) (bootloaderstruct blbin).sizeRamcopy)
    (hg : Image1024 H (loaderBank blbin) (bootloaderpos blbin) start cromimage.length (headerOf blbin cromimage)
      (cromimage.getD · 0) g) (hm : Placed1024 g m) (hcopied : Copied2bl blbin m) :
    ∃ data, bootStartBiosLoader H.sha1 m = .decompress cromwellMemoryPos data cromimage.length 1 0 ∧
      ∀ i < cromimage.length, data i = cromimage.getD i 0 := by
  have hfits := ok.fits
  rw [← hst] at hfits
  have hbank : ∀ k ≤ 3, ∀ i < 0x40000, m (buildinflashFlash k + i) = g (k * 0x40000 + i) := by
    intro k hk i hi
    rw [buildinflashFlash_add]
    exact hm _ (by omega)
  rw [loader_searches ok hst (by decide) hcopied fun x hx => (hbank 3 (by decide) x (by omega)).trans (hg.loader x hx)]
  exact loadLoop_found hfits rfl (by decide) (carries_in_bank (1 * 0x40000) hfits (hbank 1 (by decide)) hg.system1)

/-- When bank 1 fails the check, the system is found in bank 2 with the twenty-sixth attempt. -/
theorem Image1024.found_bank2 (ok : RomFits blbin cromimage)
    (hst : start = compressedImageStart (bootloaderpos blbin) (bootloaderstruct blbin).sizeRamcopy)
    (hg : Image1024 H (loaderBank blbin) (bootloaderpos blbin) start cromimage.length (headerOf blbin cromimage)
      (cromimage.getD · 0) g) (hm : PlacedBut1 g m) (hcopied : Copied2bl blbin m)
    (hbad : (loadAttempt H.sha1 start cromimage.length 1 m).2 = false) :
    ∃ data, bootStartBiosLoader H.sha1 m = .decompress cromwellMemoryPos data cromimage.length 2 25 ∧
      ∀ i < cromimage.length, data i = cromimage.getD i 0 := by
  have hfits := ok.fits
  rw [← hst] at hfits
  have hbank : ∀ k ≤ 3, k ≠ 1 → ∀ i < 0x40000, m (buildinflashFlash k + i) = g (k * 0x40000 + i) := by
    intro k hk hne i hi
    rw [buildinflashFlash_add]
    exact hm _ (by omega) (by omega)
  have hfirst : loadLoop H.sha1 start cromimage.length 1 100 0 3 m =
      loadLoop H.sha1 start cromimage.length 1 99 1 1 (loadAttempt H.sha1 start cromimage.length 1 m).1 :=
    loadLoop_failed rfl hbad
  have hframe := (loadAttempt_spec H.sha1 m hfits (show 1 ≤ 3 by decide)).1
  have hbad' : (loadAttempt H.sha1 start cromimage.length 1
      (loadAttempt H.sha1 start cromimage.length 1 m).1).2 = false := by
    rw [loadAttempt_same hfits (by decide) hframe]
    exact hbad
  obtain ⟨m₁, hsame, hskip⟩ := loadLoop_skips_bank1 hfits 24 _ (Nat.le_refl 24) hbad'
  rw [loader_searches ok hst (by decide) hcopied
    fun x hx => (hbank 3 (by decide) (by decide) x (by omega)).trans (hg.loader x hx), hfirst, hskip]
  refine loadLoop_found hfits rfl (by decide) (carries_in_bank (2 * 0x40000) hfits (fun i hi => ?_) hg.system2)
  have hhigh : 0xfff00000 ≤ buildinflashFlash 2 + i := Nat.le_trans (by decide) (Nat.le_add_right _ i)
  rw [hsame _ hhigh, hframe _ hhigh]
  exact hbank 2 (by decide) (by decide) i hi

end Find

/-- Both files of `romcopy` are accepted by the loader: the 256K image from bank 3 and the 1MB image from bank
    1, at the first attempt, and the 1MB image from bank 2 when bank 1 is damaged. `decompress_kernel` gets
    exactly the packed system, and each file ends with the MD5 of what comes before. -/
theorem images_accepted (H : Hashes) (blbin cromimage : List UInt8) (ok : RomFits blbin cromimage) :
    ∃ f g, romcopy H blbin cromimage = some (⟨0x40000, f⟩, ⟨0x100000, g⟩) ∧
      (∀ m, Placed256 f m → Copied2bl blbin m →
        ∃ data, bootStartBiosLoader H.sha1 m = .decompress cromwellMemoryPos data cromimage.length 3 0 ∧
          ∀ i < cromimage.length, data i = cromimage.getD i 0) ∧
      (∀ m, Placed1024 g m → Copied2bl blbin m →
        ∃ data, bootStartBiosLoader H.sha1 m = .decompress cromwellMemoryPos data cromimage.length 1 0 ∧
          ∀ i < cromimage.length, data i = cromimage.getD i 0) ∧
      (∀ m, PlacedBut1 g m → Copied2bl blbin m →
        (loadAttempt H.sha1 (compressedImageStart (bootloaderpos blbin) (bootloaderstruct blbin).sizeRamcopy)
          cromimage.length 1 m).2 = false →
        ∃ data, bootStartBiosLoader H.sha1 m = .decompress cromwellMemoryPos data cromimage.length 2 25 ∧
          ∀ i < cromimage.length, data i = cromimage.getD i 0) ∧
      (∀ i < 16, f (0x40000 - 16 + i) = H.md5 (f.bytesFrom 0 (0x40000 - 16)) i) ∧
      ∀ i < 16, g (0x100000 - 16 + i) = H.md5 (g.bytesFrom 0 (0x100000 - 16)) i := by
  obtain ⟨f, g, hrun, hf, hg⟩ := romcopy_spec H ok.buildable
  exact ⟨f, g, hrun, fun m hm hcopied => hf.found ok rfl hm hcopied, fun m hm hcopied => hg.found ok rfl hm hcopied,
    fun m hm hcopied hbad => hg.found_bank2 ok rfl hm hcopied hbad, hf.md5, hg.md5⟩

/-- A loader file of 92 bytes: its header at `0x44`, just behind the helper word, asks for 36 bytes. -/
def smallLoader : List UInt8 :=
  List.replicate 0x40 0 ++ [0x44, 0, 0, 0] ++ List.replicate 20 0 ++ [36, 0, 0, 0]

/-- Digests that add up the bytes. -/
def sumHashes : Hashes where
  sha1 := fun bytes i => bytes.foldl (· + ·) (UInt8.ofNat i)
  md5 := fun bytes i => bytes.foldl (· + ·) (UInt8.ofNat i)

/-- Bank 1 is erased. -/
def Erased1 (m : Mem) : Prop := ∀ i < 0x40000, m (buildinflashFlash 1 + i) = 0xff

/-- An erased bank does not pass the check, if its digest does not begin with 0xff too. -/
theorem erased_fails {m : Mem} {n : Nat} (h : Erased1 m) (fits : 0x170 + 20 + n ≤ 0x3fe00)
    (hdigest : sumHashes.sha1 (Mem.bytesFrom (fun _ => 0xff) 0 n) 0 ≠ 0xff) :
    (loadAttempt sumHashes.sha1 0x170 n 1 m).2 = false := by
  have hbytes : m.bytesFrom (buildinflashFlash 1 + 0x170 + 20) n = Mem.bytesFrom (fun _ => 0xff) 0 n := by
    apply Mem.bytesFrom_congr
    intro i hi
    rw [Nat.add_assoc, Nat.add_assoc]
    exact h _ (by omega)
  rw [(loadAttempt_spec sumHashes.sha1 m fits (by decide)).2.2, hbytes, Bool.eq_false_iff]
  intro hequal
  have hfirst := (digestsEqual_iff _ _).mp hequal 0 (by decide)
  rw [Nat.add_zero, h 0x170 (by decide)] at hfirst
  exact hdigest hfirst.symm

/-- A system of three bytes is accepted from bank 3, from bank 1, and from bank 2 when bank 1 is erased. -/
theorem images_accepted_small :
    RomFits smallLoader [1, 2, 3] ∧
      ∃ f g, romcopy sumHashes smallLoader [1, 2, 3] = some (⟨0x40000, f⟩, ⟨0x100000, g⟩) ∧
        (∀ m, Placed256 f m → Copied2bl smallLoader m →
          ∃ data, bootStartBiosLoader sumHashes.sha1 m = .decompress cromwellMemoryPos data 3 3 0 ∧
            ∀ i < 3, data i = [1, 2, 3].getD i 0) ∧
        (∀ m, Placed1024 g m → Copied2bl smallLoader m →
          ∃ data, bootStartBiosLoader sumHashes.sha1 m = .decompress cromwellMemoryPos data 3 1 0 ∧
            ∀ i < 3, data i = [1, 2, 3].getD i 0) ∧
        (∀ m, PlacedBut1 g m → Copied2bl smallLoader m → Erased1 m →
          ∃ data, bootStartBiosLoader sumHashes.sha1 m = .decompress cromwellMemoryPos data 3 2 25 ∧
            ∀ i < 3, data i = [1, 2, 3].getD i 0) ∧
        (∀ i < 16, f (0x40000 - 16 + i) = sumHashes.md5 (f.bytesFrom 0 (0x40000 - 16)) i) ∧
        ∀ i < 16, g (0x100000 - 16 + i) = sumHashes.md5 (g.bytesFrom 0 (0x100000 - 16)) i := by
  have ok : RomFits smallLoader [1, 2, 3] := ⟨by decide +kernel, by decide +kernel, by decide +kernel⟩
  have hstart : compressedImageStart (bootloaderpos smallLoader) (bootloaderstruct smallLoader).sizeRamcopy = 0x170 := by
    decide +kernel
  obtain ⟨f, g, hrun, hf, hg, hg2, hmd5⟩ := images_accepted sumHashes smallLoader [1, 2, 3] ok
  rw [hstart] at hg2
  exact ⟨ok, f, g, hrun, hf, hg, fun m hm hcopied herased => hg2 m hm hcopied (erased_fails herased (by decide) (by decide)),
    hmd5⟩

end Cromwell.Image
