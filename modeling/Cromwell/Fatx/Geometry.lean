/-
Module: Cromwell.Fatx.Geometry
Layer: Proofs
Purpose: Where a FATX partition lies on the disk. The disk is a sequence of bytes; a raw read returns a stretch of
  it exactly when it begins at a sector and stays below the last sector number, and an opened partition of any
  size that the disk can hold keeps its header, its chain table and its clusters apart.
Imports: Cromwell.Fatx.Resolution
Trusted boundary: diskByte, ReadsDisk, Geometry
Main exports: fatxRawRead_reads_disk, openFATXPartition_geometry
-/
import Cromwell.Fatx.Resolution

namespace Cromwell.Fatx

open ByteMemory

/-! ### Raw reads as stretches of the disk -/

/-- Byte `a` of the disk. -/
def diskByte (drive : Drive) (a : Nat) : UInt8 :=
  match drive (a / 512) with
  | none => 0
  | some bytes => bytes (a % 512)

/-- On every disk whose sectors can be read the call returns `byteLen`, and the buffer is left with the bytes of
    the disk from `sector * 512 + byteOffset` on and with what it held behind them. -/
def ReadsDisk (sector byteOffset byteLen : Nat) : Prop :=
  ∀ drive : Drive, (∀ s, (drive s).isSome) → ∀ ba buf : Mem,
    fatxRawRead drive ba sector byteOffset byteLen buf =
      some (byteLen, buf.write 0 byteLen fun k => diskByte drive (sector * 512 + byteOffset + k))

/-- Below the last sector number the bytes from a sector on are those of the disk. -/
theorem sectorByte_eq_diskByte (drive : Drive) {sector k : Nat} (h : sector + k / 512 < 2 ^ 32) :
    sectorByte drive sector k = diskByte drive (sector * 512 + k) := by
  have hdiv : (sector * 512 + k) / 512 = sector + k / 512 := by omega
  have hmod : (sector * 512 + k) % 512 = k % 512 := by omega
  cases hread : drive (sector + k / 512) with
  | none => simp only [sectorByte, diskByte, u32_of_lt h, hdiv, hread]
  | some bytes => simp only [sectorByte, diskByte, u32_of_lt h, hdiv, hmod, hread]

/-- A read from a sector boundary, as a stretch of the disk. -/
theorem fatxRawRead_stretch {drive : Drive} (ba buf : Mem) {sector byteOffset byteLen : Nat}
    (hoff : byteOffset % 512 = 0)
    (hlast : ∀ k < byteLen, sector + byteOffset / 512 + k / 512 < 2 ^ 32)
    (hread : ∀ k < byteLen, (drive (sector + byteOffset / 512 + k / 512)).isSome) :
    fatxRawRead drive ba sector byteOffset byteLen buf =
      some (byteLen, buf.write 0 byteLen fun k => diskByte drive (sector * 512 + byteOffset + k)) := by
  have hstart : (sector + byteOffset / 512) * 512 = sector * 512 + byteOffset := by omega
  rw [fatxRawRead_aligned ba hoff fun k hk => by rw [u32_of_lt (hlast k hk)]; exact hread k hk]
  congr 2
  apply Mem.write_congr
  intro k hk
  rw [sectorByte_eq_diskByte drive (hlast k hk), hstart]

/-- Inside a sector the first bytes come from the array that nothing was read to, or none of them are copied and
    the rest of the sector is left in the buffer. -/
theorem not_readsDisk_of_unaligned {sector byteOffset byteLen : Nat} (hlen : byteLen ≠ 0)
    (hoff : byteOffset % 512 ≠ 0) : ¬ ReadsDisk sector byteOffset byteLen := by
  intro h
  have hcall := h (fun _ => some fun _ => 0) (fun _ => rfl) (fun _ => 1) fun _ => 1
  have hloop : ∀ n buf, rawReadLoop (fun _ => some fun _ => 0) (byteLen - n) (sector + byteOffset / 512 + 1)
      (byteLen - n) n buf =
        (n + (byteLen - n), buf.write n (byteLen - n) (sectorByte (fun _ => some fun _ => 0) _)) :=
    fun n buf => rawReadLoop_eq _ (Nat.le_refl _) fun _ _ => rfl
  simp only [fatxRawRead, if_neg hlen, if_pos hoff] at hcall
  generalize hthis : (if byteLen < 512 then byteLen else 512) = nThisTime at hcall
  have hcases : nThisTime = byteLen ∧ byteLen < 512 ∨ nThisTime = 512 ∧ 512 ≤ byteLen := by
    split at hthis <;> omega
  by_cases hneg : nThisTime < byteOffset % 512
  · rw [if_pos hneg] at hcall
    cases hcall
  · rw [if_neg hneg, hloop, Option.some.injEq, Prod.mk.injEq] at hcall
    obtain ⟨-, hbuf⟩ := hcall
    by_cases hnone : nThisTime = byteOffset % 512
    · have hbehind := congrFun hbuf byteLen
      simp only [Mem.write] at hbehind
      rw [if_neg (by omega), if_neg (by omega), if_pos (by omega), if_neg (by omega)] at hbehind
      cases hbehind
    · have hfirst := congrFun hbuf 0
      simp only [Mem.write] at hfirst
      rw [if_neg (by omega), if_pos (by omega), if_pos (by omega)] at hfirst
      cases hfirst

/-- Behind the last sector number the first sectors of the disk are read again. -/
theorem not_readsDisk_of_wrap {sector byteOffset byteLen : Nat} (hlen : byteLen ≠ 0)
    (hoff : byteOffset % 512 = 0) (hwrap : 2 ^ 32 ≤ sector + (byteOffset + byteLen - 1) / 512) :
    ¬ ReadsDisk sector byteOffset byteLen := by
  intro h
  have hcall := h (fun s => some fun _ => if s < 2 ^ 32 then 0 else 1) (fun _ => rfl) (fun _ => 0) fun _ => 0
  rw [fatxRawRead_aligned _ hoff fun _ _ => rfl, Option.some.injEq, Prod.mk.injEq] at hcall
  obtain ⟨-, hbuf⟩ := hcall
  have hlast := congrFun hbuf (byteLen - 1)
  simp only [Mem.write] at hlast
  rw [if_pos (by omega), if_pos (by omega), sectorByte, diskByte] at hlast
  simp only [if_pos (show u32 _ < 2 ^ 32 from Nat.mod_lt _ (by decide))] at hlast
  rw [if_neg (by omega)] at hlast
  cases hlast

/-- `FATXRawRead` returns the bytes of the disk exactly when it is asked for none, or begins at a sector and
    ends below the last sector number. -/
theorem fatxRawRead_reads_disk (sector byteOffset byteLen : Nat) :
    ReadsDisk sector byteOffset byteLen ↔
      byteLen = 0 ∨ (byteOffset % 512 = 0 ∧ sector + (byteOffset + byteLen - 1) / 512 < 2 ^ 32) := by
  constructor
  · intro h
    by_contra hcond
    obtain ⟨hlen, hrest⟩ := not_or.mp hcond
    by_cases hoff : byteOffset % 512 = 0
    · exact not_readsDisk_of_wrap hlen hoff (Nat.le_of_not_lt fun hlt => hrest ⟨hoff, hlt⟩) h
    · exact not_readsDisk_of_unaligned hlen hoff h
  · rintro (rfl | ⟨hoff, hlast⟩) drive hdrive ba buf
    · rw [fatxRawRead]
      simp only [if_pos, Mem.write_zero]
    · apply fatxRawRead_stretch ba buf hoff
      · intro k hk
        omega
      · intro k hk
        exact hdrive _

/-- One byte from the middle of a sector. -/
theorem one_byte_inside_sector : ¬ ReadsDisk 0 1 1 :=
  not_readsDisk_of_unaligned (by decide) (by decide)

/-! ### The parts of a partition -/

namespace FATXPartition

variable (partition : FATXPartition)

/-- The id of a cluster that the partition has. -/
def InTable (clusterId : Int) : Prop := 1 ≤ clusterId ∧ clusterId < partition.clusterCount

/-- `chainTableSize` when the partition was opened. -/
def tableSize : Nat := chainTableSize partition.clusterCount partition.chainMapEntrySize

/-- The bytes of the disk that hold the header. -/
def headerRange : Set Nat :=
  Set.Ico (partition.partitionStart * 512) (partition.partitionStart * 512 + fatxPartitionHeadersize)

/-- The bytes of the disk that hold the chain table. -/
def tableRange : Set Nat :=
  Set.Ico (partition.partitionStart * 512 + fatxPartitionHeadersize)
    (partition.partitionStart * 512 + fatxPartitionHeadersize + partition.tableSize)

/-- The first byte of a cluster on the disk. -/
def clusterStart (clusterId : Int) : Nat := partition.partitionStart * 512 + clusterAddress partition clusterId

/-- The bytes of the disk that `LoadFATXCluster` reads. -/
def clusterRange (clusterId : Int) : Set Nat :=
  Set.Ico (partition.clusterStart clusterId) (partition.clusterStart clusterId + partition.clusterSize)

/-- `maxCluster` of `getNextClusterInChain`: the values behind it are reserved. -/
def maxCluster : Nat := if partition.chainMapEntrySize = 2 then 0xfff4 else 0xfffffff4

end FATXPartition

/-- The parts of a partition that was opened on `drive` fit together. -/
structure Geometry (drive : Drive) (partition : FATXPartition) : Prop where
  entry_inside : ∀ n, partition.InTable n →
    0 ≤ n * partition.chainMapEntrySize ∧ (n + 1) * partition.chainMapEntrySize ≤ partition.tableSize
  table_read : (∀ a ∈ partition.tableRange, (drive (a / 512)).isSome) → ∀ i < partition.tableSize,
    partition.clusterChainMap i = diskByte drive (partition.partitionStart * 512 + fatxPartitionHeadersize + i)
  cluster_aligned : ∀ n, partition.InTable n → clusterAddress partition n % 512 = 0
  cluster_read : ∀ n, partition.InTable n → ∀ (drive : Drive) (ba clusterData : Mem),
    (∀ a ∈ partition.clusterRange n, (drive (a / 512)).isSome) →
      loadFATXCluster drive ba partition n clusterData =
        some (clusterData.write 0 partition.clusterSize fun k => diskByte drive (partition.clusterStart n + k))
  clusters_disjoint : ∀ n m, partition.InTable n → partition.InTable m → n ≠ m →
    Disjoint (partition.clusterRange n) (partition.clusterRange m)
  header_disjoint : ∀ n, partition.InTable n → Disjoint (partition.clusterRange n) partition.headerRange
  table_disjoint : ∀ n, partition.InTable n → Disjoint (partition.clusterRange n) partition.tableRange
  representable : ∀ n, partition.InTable n →
    n < 256 ^ partition.chainMapEntrySize ∧ n ≤ partition.maxCluster ∧ ¬ IsEndMarker partition n.toNat ∧
      ∀ clusterId, (chainEntry partition clusterId : Int) = n → getNextClusterInChain partition clusterId = n

/-- What `OpenFATXPartition` returns: the chain table is what the second read left in the allocated memory. -/
theorem openFATXPartition_table {drive : Drive} {partitionInfo ba : Mem} {heap : Option (Int → UInt8)}
    {partitionOffset partitionSize : Nat} {partition : FATXPartition}
    (h : openFATXPartition drive partitionInfo ba heap partitionOffset partitionSize = some partition) :
    partition.partitionStart = partitionOffset ∧ partition.partitionSize = partitionSize ∧
      ∃ memory table, fatxRawRead drive ba partitionOffset fatxPartitionHeadersize partition.tableSize
        (fun i => memory i) = some table ∧
          partition.clusterChainMap = tableBytes memory partition.tableSize table.2 := by
  unfold openFATXPartition at h
  obtain ⟨header, -, h⟩ := Option.bind_eq_some_iff.mp h
  split at h
  case isTrue => cases h
  case isFalse =>
    split at h
    case isTrue => cases h
    case isFalse =>
      obtain ⟨memory, -, h⟩ := Option.bind_eq_some_iff.mp h
      obtain ⟨table, htable, h⟩ := Option.bind_eq_some_iff.mp h
      cases h
      exact ⟨rfl, rfl, memory, table, htable, rfl⟩

/-- The table has room for the entry of every cluster. -/
theorem le_chainTableSize {clusterCount chainMapEntrySize : Nat}
    (h : clusterCount * chainMapEntrySize + 4096 ≤ 2 ^ 32) :
    clusterCount * chainMapEntrySize ≤ chainTableSize clusterCount chainMapEntrySize ∧
      chainTableSize clusterCount chainMapEntrySize < clusterCount * chainMapEntrySize + 4096 := by
  have hsize : u32 (clusterCount * chainMapEntrySize) = clusterCount * chainMapEntrySize := u32_of_lt (by omega)
  rw [chainTableSize, fatxChaintableBlocksize, hsize]
  by_cases hblocks : clusterCount * chainMapEntrySize % 4096 = 0
  · rw [if_neg (not_not.mpr hblocks)]
    omega
  · rw [if_pos hblocks, u32_of_lt (by omega)]
    omega

namespace FATXPartition.Opened

variable {partition : FATXPartition}

theorem entrySize_cases (hp : partition.Opened) :
    partition.chainMapEntrySize = 2 ∧ partition.clusterCount < 0xfff4 ∨
      partition.chainMapEntrySize = 4 ∧ 0xfff4 ≤ partition.clusterCount := by
  have hsize := hp.chainMapEntrySize
  split at hsize
  case isTrue h =>
    exact Or.inr ⟨hsize, h⟩
  case isFalse h =>
    exact Or.inl ⟨hsize, Nat.lt_of_not_le h⟩

/-- The numbers of a partition whose clusters have 31-bit sector numbers. Nothing wraps. -/
theorem sizes (hp : partition.Opened)
    (hbound : partition.partitionStart + (fatxPartitionHeadersize + partition.tableSize + partition.partitionSize) / 512
      < 2 ^ 31) :
    partition.clusterCount = partition.partitionSize / 0x4000 ∧ partition.clusterCount < 2 ^ 26 ∧
      partition.clusterCount * partition.chainMapEntrySize ≤ partition.tableSize ∧
      partition.cluster1Address = fatxPartitionHeadersize + partition.tableSize := by
  have hcount : partition.clusterCount = partition.partitionSize / 0x4000 := by
    rw [hp.clusterCount, u32]
    omega
  have hlt : partition.clusterCount < 2 ^ 26 := by omega
  have hentries : partition.clusterCount * partition.chainMapEntrySize ≤ 2 ^ 28 := by
    rcases hp.entrySize_cases with ⟨h, -⟩ | ⟨h, -⟩ <;> rw [h] <;> omega
  obtain ⟨hle, htable⟩ := le_chainTableSize
    (show partition.clusterCount * partition.chainMapEntrySize + 4096 ≤ 2 ^ 32 by omega)
  refine ⟨hcount, hlt, hle, ?_⟩
  rw [hp.cluster1Address]
  apply u32_of_lt
  rw [fatxPartitionHeadersize]
  omega

end FATXPartition.Opened

section Geometry

variable {partition : FATXPartition} (hp : partition.Opened)
  (hbound : partition.partitionStart + (fatxPartitionHeadersize + partition.tableSize + partition.partitionSize) / 512
    < 2 ^ 31)

include hp hbound

/-- Cluster `n` begins behind the table and the clusters before it, and ends before the bound. -/
theorem clusterStart_eq {n : Int} (hn : partition.InTable n) :
    partition.clusterStart n =
        partition.partitionStart * 512 + fatxPartitionHeadersize + partition.tableSize + (n - 1).toNat * 0x4000 ∧
      partition.clusterStart n + 0x4000 ≤ 2 ^ 31 * 512 := by
  obtain ⟨hcount, hlt, -, haddress⟩ := hp.sizes hbound
  obtain ⟨hpos, hin⟩ := hn
  rw [FATXPartition.clusterStart, (clusterAddress_eq hp hpos hin).1, haddress]
  omega

theorem entry_inside {n : Int} (hn : partition.InTable n) :
    0 ≤ n * partition.chainMapEntrySize ∧ (n + 1) * partition.chainMapEntrySize ≤ partition.tableSize := by
  obtain ⟨-, -, htable, -⟩ := hp.sizes hbound
  obtain ⟨hpos, hin⟩ := hn
  rcases hp.entrySize_cases with ⟨hsize, -⟩ | ⟨hsize, -⟩ <;> rw [hsize] at htable ⊢ <;> omega

/-- The loaded cluster is a stretch of the disk. -/
theorem cluster_read {n : Int} (hn : partition.InTable n) {drive : Drive} (ba clusterData : Mem)
    (hread : ∀ a ∈ partition.clusterRange n, (drive (a / 512)).isSome) :
    loadFATXCluster drive ba partition n clusterData =
      some (clusterData.write 0 partition.clusterSize fun k => diskByte drive (partition.clusterStart n + k)) := by
  obtain ⟨-, hend⟩ := clusterStart_eq hp hbound hn
  obtain ⟨haddress, haligned⟩ := clusterAddress_eq hp hn.1 hn.2
  have hstart : partition.clusterStart n = partition.partitionStart * 512 + clusterAddress partition n := rfl
  rw [← haddress] at haligned
  have hsector : ∀ k, partition.partitionStart + clusterAddress partition n / 512 + k / 512 =
      (partition.clusterStart n + k) / 512 := by
    intro k
    omega
  rw [loadFATXCluster, hp.clusterSize, fatxRawRead_stretch ba clusterData haligned]
  · rfl
  · intro k hk
    omega
  · intro k hk
    rw [hsector]
    apply hread
    rw [FATXPartition.clusterRange, hp.clusterSize]
    exact ⟨Nat.le_add_right _ _, Nat.add_lt_add_left hk _⟩

theorem clusters_disjoint {n m : Int} (hn : partition.InTable n) (hm : partition.InTable m) (hne : n ≠ m) :
    Disjoint (partition.clusterRange n) (partition.clusterRange m) := by
  obtain ⟨hstart, -⟩ := clusterStart_eq hp hbound hn
  obtain ⟨hstart', -⟩ := clusterStart_eq hp hbound hm
  have hpos := hn.1
  have hpos' := hm.1
  rw [Set.disjoint_left]
  rintro a ⟨hle, hlt⟩ ⟨hle', hlt'⟩
  rw [hp.clusterSize] at hlt hlt'
  omega

/-- A cluster lies behind the header and the table. -/
theorem cluster_disjoint_before {n : Int} (hn : partition.InTable n) {first last : Nat}
    (hlast : last ≤ partition.partitionStart * 512 + fatxPartitionHeadersize + partition.tableSize) :
    Disjoint (partition.clusterRange n) (Set.Ico first last) := by
  obtain ⟨hstart, -⟩ := clusterStart_eq hp hbound hn
  rw [Set.disjoint_left]
  rintro a ⟨hle, -⟩ ⟨-, hlt⟩
  omega

/-- No id of a cluster is taken for the end of a chain, and an entry that holds one leads to it. -/
theorem representable {n : Int} (hn : partition.InTable n) :
    n < 256 ^ partition.chainMapEntrySize ∧ n ≤ partition.maxCluster ∧ ¬ IsEndMarker partition n.toNat ∧
      ∀ clusterId, (chainEntry partition clusterId : Int) = n → getNextClusterInChain partition clusterId = n := by
  obtain ⟨-, hcount, -, -⟩ := hp.sizes hbound
  obtain ⟨hpos, hin⟩ := hn
  have hsmall : n < 2 ^ 26 := by omega
  refine ⟨?_, ?_, ?_, fun clusterId hentry => ?_⟩
  · rcases hp.entrySize_cases with ⟨hsize, hlt⟩ | ⟨hsize, -⟩ <;> rw [hsize] <;> omega
  · rw [FATXPartition.maxCluster]
    rcases hp.entrySize_cases with ⟨hsize, hlt⟩ | ⟨hsize, -⟩ <;> rw [hsize] <;> norm_num <;> omega
  · rw [IsEndMarker]
    rcases hp.entrySize_cases with ⟨hsize, hlt⟩ | ⟨hsize, -⟩ <;> rw [hsize] <;> norm_num <;> omega
  · have hint : int32 (chainEntry partition clusterId) = n := by
      rw [int32]
      split <;> omega
    rw [getNextClusterInChain_step hp (by omega) (by omega), hint]

end Geometry

/-- The table in memory is the one on the disk. -/
theorem openFATXPartition_table_read {drive : Drive} {partitionInfo ba : Mem} {heap : Option (Int → UInt8)}
    {partitionOffset partitionSize : Nat} {partition : FATXPartition}
    (h : openFATXPartition drive partitionInfo ba heap partitionOffset partitionSize = some partition)
    (hbound : partitionOffset + (fatxPartitionHeadersize + partition.tableSize + partitionSize) / 512 < 2 ^ 31)
    (hread : ∀ a ∈ partition.tableRange, (drive (a / 512)).isSome) {i : Nat} (hi : i < partition.tableSize) :
    partition.clusterChainMap i =
      diskByte drive (partition.partitionStart * 512 + fatxPartitionHeadersize + i) := by
  obtain ⟨hstart, hsize, memory, table, htable, hmap⟩ := openFATXPartition_table h
  have hsector : ∀ k, partitionOffset + fatxPartitionHeadersize / 512 + k / 512 =
      (partition.partitionStart * 512 + fatxPartitionHeadersize + k) / 512 := by
    intro k
    rw [hstart, fatxPartitionHeadersize]
    omega
  rw [fatxRawRead_stretch ba _ (by decide)] at htable
  · cases htable
    rw [hmap, tableBytes, if_pos (by omega), Int.toNat_natCast]
    simp only [Mem.write]
    rw [if_pos (by omega), Nat.sub_zero, hstart]
  · intro k hk
    rw [fatxPartitionHeadersize] at hbound ⊢
    omega
  · intro k hk
    rw [hsector]
    apply hread
    exact ⟨Nat.le_add_right _ _, Nat.add_lt_add_left hk _⟩

/-- The geometry of a partition is consistent, whatever its size. -/
theorem openFATXPartition_geometry {drive : Drive} {partitionInfo ba : Mem} {heap : Option (Int → UInt8)}
    {partitionOffset partitionSize : Nat} {partition : FATXPartition}
    (h : openFATXPartition drive partitionInfo ba heap partitionOffset partitionSize = some partition)
    (hbound : partitionOffset + (fatxPartitionHeadersize + partition.tableSize + partitionSize) / 512 < 2 ^ 31) :
    Geometry drive partition := by
  have hp : partition.Opened := openFATXPartition_opened h
  obtain ⟨hstart, hsize, -⟩ := openFATXPartition_table h
  have hbound' : partition.partitionStart +
      (fatxPartitionHeadersize + partition.tableSize + partition.partitionSize) / 512 < 2 ^ 31 := by
    rw [hstart, hsize]
    exact hbound
  exact
    { entry_inside := fun _ hn => entry_inside hp hbound' hn
      table_read := fun hread _ hi => openFATXPartition_table_read h hbound hread hi
      cluster_aligned := fun _ hn => by
        rw [(clusterAddress_eq hp hn.1 hn.2).1]
        exact (clusterAddress_eq hp hn.1 hn.2).2
      cluster_read := fun _ hn _ ba clusterData hread => cluster_read hp hbound' hn ba clusterData hread
      clusters_disjoint := fun _ _ hn hm hne => clusters_disjoint hp hbound' hn hm hne
      header_disjoint := fun _ hn => cluster_disjoint_before hp hbound' hn (Nat.le_add_right _ _)
      table_disjoint := fun _ hn => cluster_disjoint_before hp hbound' hn (Nat.le_refl _)
      representable := fun _ hn => representable hp hbound' hn }

/-- The partition of four clusters that begins at the first sector of a disk. -/
def smallPartition (drive : Drive) : FATXPartition :=
  { partitionStart := 0
    partitionSize := 0x10000
    clusterSize := 0x4000
    clusterCount := 4
    chainMapEntrySize := 2
    clusterChainMap := tableBytes (fun _ => 0) 4096 (Mem.write (fun _ => 0) 0 4096 (sectorByte drive 8))
    cluster1Address := 0x2000 }

theorem openFATXPartition_small {drive : Drive} (hread : ∀ s, (drive s).isSome)
    (hmagic : Mem.loadWord (Mem.write (fun _ => 0) 0 fatxPartitionHeadersize (sectorByte drive 0)) 0 =
      fatxPartitionMagic) :
    openFATXPartition drive (fun _ => 0) (fun _ => 0) (some fun _ => 0) 0 0x10000 = some (smallPartition drive) := by
  have hsize : chainTableSize (u32 (0x10000 / 0x4000)) 2 = 4096 := by decide
  have hraw : ∀ byteOffset byteLen buf, byteOffset % 512 = 0 →
      fatxRawRead drive (fun _ => 0) 0 byteOffset byteLen buf =
        some (byteLen, buf.write 0 byteLen (sectorByte drive (0 + byteOffset / 512))) :=
    fun _ _ _ hoff => fatxRawRead_aligned _ hoff fun _ _ => hread _
  rw [openFATXPartition, hraw _ _ _ (by decide)]
  simp only [Option.bind_eq_bind, Option.bind_some, hraw fatxPartitionHeadersize _ _ (by decide)]
  rw [if_neg (by decide), if_neg (not_not.mpr hmagic),
    show (if u32 (0x10000 / 0x4000) ≥ 0xfff4 then 4 else 2) = 2 from rfl, hsize, smallPartition]
  rfl

theorem smallPartition_opened (drive : Drive) : (smallPartition drive).Opened :=
  ⟨rfl, show 4 = u32 (0x10000 / 0x4000) by decide, rfl,
    show 0x2000 = u32 (fatxPartitionHeadersize + chainTableSize 4 2) by decide⟩

/-- A disk with the header of a partition in its first sector. -/
def headerDrive (sectors : Nat → Nat → UInt8) : Drive := fun sector =>
  some (if sector = 0 then fun k => [0x46, 0x41, 0x54, 0x58].getD k 0 else sectors sector)

theorem openFATXPartition_headerDrive (sectors : Nat → Nat → UInt8) :
    openFATXPartition (headerDrive sectors) (fun _ => 0) (fun _ => 0) (some fun _ => 0) 0 0x10000 =
      some (smallPartition (headerDrive sectors)) :=
  openFATXPartition_small (fun _ => rfl) (by
    simp [Mem.loadWord, Mem.write, fatxPartitionHeadersize, sectorByte, headerDrive, u32, fatxPartitionMagic])

/-- The sectors of a disk with a file "A" of 0x5000 bytes in clusters 2 and 3. -/
def fileSectors (sector k : Nat) : UInt8 :=
  if sector = 8 then [0, 0, 0xff, 0xff, 3, 0, 0xff, 0xff].getD k 0
  else if sector = 16 then
    if k = 0 then 1 else if k = 2 then 0x41 else if k = 0x2c then 2 else if k = 0x31 then 0x50
    else if k = 0x40 then 0xff else 0
  else 0x55

/-- Its partition. -/
def filePartition : FATXPartition := smallPartition (headerDrive fileSectors)

theorem filePartition_opened : filePartition.Opened := smallPartition_opened _

theorem openFATXPartition_geometry_small :
    Geometry (headerDrive fun _ _ => 0) (smallPartition (headerDrive fun _ _ => 0)) :=
  openFATXPartition_geometry (openFATXPartition_headerDrive _) (by decide)

end Cromwell.Fatx
