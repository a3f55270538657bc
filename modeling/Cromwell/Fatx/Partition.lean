/-
Module: Cromwell.Fatx.Partition
Layer: Model
Purpose: A FATX partition and what the driver reads of it: raw reads from a sector on, opening a partition,
  the clusters, and the steps along the cluster chain map. Cluster ids are the signed 32-bit integers of the
  source, and a chain map may be looked up outside of its table.
Imports: Cromwell.Lib.Buffer
Trusted boundary: reviewed against src/fs/fatx/BootFATX.c, src/fs/fatx/BootFATX.h
Main exports: Drive, fatxRawRead, FATXPartition, openFATXPartition, FATXPartition.Opened,
  FATXPartition.HasEntry, getNextClusterInChain, loadFATXCluster
-/
import Cromwell.Lib.Buffer

namespace Cromwell.Fatx

open ByteMemory

/-- `BootIdeReadSector` on a hard disk: the 512 bytes of a sector, or an error. -/
abbrev Drive := Nat → Option (Nat → UInt8)

/-- A 32-bit unsigned integer as a signed one. -/
def int32 (n : Nat) : Int := if n % 2 ^ 32 < 2 ^ 31 then n % 2 ^ 32 else n % 2 ^ 32 - 2 ^ 32

/-- A signed integer as a 64-bit unsigned one. -/
def toU64 (n : Int) : Nat := (n % 2 ^ 64).toNat

/-! ### Raw reads -/

/-- The `while(byte_len)` of `FATXRawRead` on a sector boundary. The first argument bounds the rounds: each of
    them reads a byte at least. -/
def rawReadLoop (drive : Drive) : Nat → Nat → Nat → Nat → Mem → Nat × Mem
  | 0, _, _, byteRead, buf => (byteRead, buf)
  | rounds + 1, sector, byteLen, byteRead, buf =>
      if byteLen = 0 then (byteRead, buf)
      else
        let nThisTime := if byteLen < 512 then byteLen else 512
        match drive (u32 sector) with
        | none => (0, buf)
        | some bytes =>
            rawReadLoop drive rounds (sector + 1) (byteLen - nThisTime) (byteRead + nThisTime)
              (buf.write byteRead nThisTime bytes)

/-- `FATXRawRead` of a length that is not negative: the count that is returned and the buffer, or a `memcpy` of a
    negative length. Inside a sector the source reads the sector to `buf` and then copies from `ba`, which is
    not initialised. -/
def fatxRawRead (drive : Drive) (ba : Mem) (sector byteOffset byteLen : Nat) (buf : Mem) : Option (Nat × Mem) :=
  let sector := sector + byteOffset / 512
  let byteOffset := byteOffset % 512
  if byteLen = 0 then some (0, buf)
  else if byteOffset ≠ 0 then
    let nThisTime := if byteLen < 512 then byteLen else 512
    match drive (u32 sector) with
    | none => some (0, buf)
    | some bytes =>
        let buf := buf.write 0 512 bytes
        if nThisTime < byteOffset then none
        else
          let n := nThisTime - byteOffset
          let buf := buf.write 0 n fun i => ba (byteOffset + i)
          some (rawReadLoop drive (byteLen - n) (sector + 1) (byteLen - n) n buf)
  else some (rawReadLoop drive byteLen sector byteLen 0 buf)

/-! ### The partition -/

/-- `FATXPartition`, for one drive; the chain map is the memory around the pointer to it. -/
structure FATXPartition where
  partitionStart : Nat
  partitionSize : Nat
  clusterSize : Nat
  clusterCount : Nat
  chainMapEntrySize : Nat
  clusterChainMap : Int → UInt8
  cluster1Address : Nat

/-- `FATX_PARTITION_HEADERSIZE`. -/
def fatxPartitionHeadersize : Nat := 0x1000

/-- `FATX_CHAINTABLE_BLOCKSIZE`. -/
def fatxChaintableBlocksize : Nat := 4096

/-- `FATX_PARTITION_MAGIC`. -/
def fatxPartitionMagic : Nat := 0x58544146

/-- The size of the chain table, rounded up to blocks. -/
def chainTableSize (clusterCount chainMapEntrySize : Nat) : Nat :=
  let size := u32 (clusterCount * chainMapEntrySize)
  if size % fatxChaintableBlocksize ≠ 0 then
    u32 ((size / fatxChaintableBlocksize + 1) * fatxChaintableBlocksize)
  else size

/-- The table of a partition after the read of `chainTableSize` bytes; around it is `heap`. -/
def tableBytes (heap : Int → UInt8) (size : Nat) (table : Mem) : Int → UInt8 :=
  fun i => if 0 ≤ i ∧ i < size then table i.toNat else heap i

/-- `OpenFATXPartition`. The arguments after the drive are what local variables and allocated memory hold
    before they are written; `heap` is missing for a `malloc` that returns `NULL`, which the source checks for and
    the one of the boot library never does. -/
def openFATXPartition (drive : Drive) (partitionInfo ba : Mem) (heap : Option (Int → UInt8))
    (partitionOffset partitionSize : Nat) : Option FATXPartition := do
  let header ← fatxRawRead drive ba partitionOffset 0 fatxPartitionHeadersize partitionInfo
  if header.1 ≠ fatxPartitionHeadersize then none
  else if header.2.loadWord 0 ≠ fatxPartitionMagic then none
  else
    let clusterCount := u32 (partitionSize / 0x4000)
    let chainMapEntrySize := if clusterCount ≥ 0xfff4 then 4 else 2
    let size := chainTableSize clusterCount chainMapEntrySize
    let heap ← heap
    let table ← fatxRawRead drive ba partitionOffset fatxPartitionHeadersize size fun i => heap i
    some
      { partitionStart := partitionOffset
        partitionSize := partitionSize
        clusterSize := 0x4000
        clusterCount := clusterCount
        chainMapEntrySize := chainMapEntrySize
        clusterChainMap := tableBytes heap size table.2
        cluster1Address := u32 (fatxPartitionHeadersize + size) }

/-- How `OpenFATXPartition` sets up the numbers of a partition. -/
structure FATXPartition.Opened (partition : FATXPartition) : Prop where
  clusterSize : partition.clusterSize = 0x4000
  clusterCount : partition.clusterCount = u32 (partition.partitionSize / 0x4000)
  chainMapEntrySize : partition.chainMapEntrySize = if partition.clusterCount ≥ 0xfff4 then 4 else 2
  cluster1Address : partition.cluster1Address =
    u32 (fatxPartitionHeadersize + chainTableSize partition.clusterCount partition.chainMapEntrySize)

theorem openFATXPartition_opened {drive : Drive} {partitionInfo ba : Mem} {heap : Option (Int → UInt8)}
    {partitionOffset partitionSize : Nat} {partition : FATXPartition}
    (h : openFATXPartition drive partitionInfo ba heap partitionOffset partitionSize = some partition) :
    partition.Opened := by
  unfold openFATXPartition at h
  obtain ⟨header, -, h⟩ := Option.bind_eq_some_iff.mp h
  split at h
  case isTrue => cases h
  case isFalse =>
    split at h
    case isTrue => cases h
    case isFalse =>
      obtain ⟨memory, -, h⟩ := Option.bind_eq_some_iff.mp h
      obtain ⟨table, -, h⟩ := Option.bind_eq_some_iff.mp h
      cases h
      exact ⟨rfl, rfl, rfl, rfl⟩

/-! ### Clusters and chains -/

/-- `clusterChainMap.words[clusterId]`. -/
def FATXPartition.word (partition : FATXPartition) (clusterId : Int) : Nat :=
  (partition.clusterChainMap (2 * clusterId)).toNat + 256 * (partition.clusterChainMap (2 * clusterId + 1)).toNat

/-- `clusterChainMap.dwords[clusterId]`. -/
def FATXPartition.dword (partition : FATXPartition) (clusterId : Int) : Nat :=
  partition.word (2 * clusterId) + 65536 * partition.word (2 * clusterId + 1)

/-- The chain table has an entry for the id: that of a cluster, or one in the part that is rounded up. What is looked
    up for another id lies in front of the table or behind it. -/
def FATXPartition.HasEntry (partition : FATXPartition) (clusterId : Int) : Prop :=
  0 ≤ clusterId ∧
    (clusterId < partition.clusterCount ∨
      (clusterId + 1) * partition.chainMapEntrySize ≤
        chainTableSize partition.clusterCount partition.chainMapEntrySize)

instance (partition : FATXPartition) (clusterId : Int) : Decidable (partition.HasEntry clusterId) :=
  inferInstanceAs (Decidable (_ ∧ _))

/-- `getNextClusterInChain`, as it is assigned to a signed cluster id. -/
def getNextClusterInChain (partition : FATXPartition) (clusterId : Int) : Int :=
  let (nextClusterId, eocMarker, rootFatMarker) :=
    if partition.chainMapEntrySize = 2 then (partition.word clusterId, 0xffff, 0xfff8)
    else if partition.chainMapEntrySize = 4 then (partition.dword clusterId, 0xffffffff, 0xfffffff8)
    else (0, 0, 0)
  -- is it the end of chain?
  if nextClusterId = eocMarker ∨ nextClusterId = rootFatMarker then -1
  -- an unallocated or invalid entry is only reported
  else int32 nextClusterId

/-- The address of a cluster in the partition. -/
def clusterAddress (partition : FATXPartition) (clusterId : Int) : Nat :=
  (partition.cluster1Address + toU64 (clusterId - 1) * partition.clusterSize) % 2 ^ 64

/-- `LoadFATXCluster`: a short read is only reported. -/
def loadFATXCluster (drive : Drive) (ba : Mem) (partition : FATXPartition) (clusterId : Int) (clusterData : Mem) :
    Option Mem :=
  (fatxRawRead drive ba partition.partitionStart (clusterAddress partition clusterId) partition.clusterSize
    clusterData).map (·.2)

end Cromwell.Fatx
