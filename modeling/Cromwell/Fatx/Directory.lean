/-
Module: Cromwell.Fatx.Directory
Layer: Spec
Purpose: What a path means on a FATX partition, apart from how the driver searches for it: a directory is the
  list of the entries in its cluster chain, a name is looked up in that list, and a path is resolved component by
  component. A chain that ends has no cycle.
Imports: Cromwell.Fatx.FindFile
Trusted boundary: DirectoryEntry, lookup, resolve, Chain, IsDirectory, entries
Main exports: DirectoryEntry, lookup, resolve, clusterByte, Chain, entries, IsDirectory, pathComponents
-/
import Cromwell.Fatx.FindFile

namespace Cromwell.Fatx

open ByteMemory
open Cromwell.BootLibrary (cString)

/-! ### Names in a directory -/

/-- An entry of a directory. -/
structure DirectoryEntry where
  size : UInt8
  flags : UInt8
  name : List UInt8
  clusterId : Int
  fileSize : Nat
  deriving DecidableEq

namespace DirectoryEntry

/-- The directory ends here. -/
def isEnd (e : DirectoryEntry) : Bool := e.size == 0x00 || e.size == 0xff

def isDeleted (e : DirectoryEntry) : Bool := e.size == 0xE5

/-- No name is that long. -/
def isInvalid (e : DirectoryEntry) : Bool := 42 < e.size.toNat

def isDirectory (e : DirectoryEntry) : Bool := e.flags &&& 0x10 != 0

end DirectoryEntry

/-- The first entry with the name decides. A lookup that meets an invalid entry before fails. -/
def lookup (name : List UInt8) : List DirectoryEntry → Option DirectoryEntry
  | [] => none
  | e :: rest =>
      if e.isEnd then none
      else if e.isDeleted then lookup name rest
      else if e.isInvalid then none
      else if e.name = name then some e
      else lookup name rest

/-- A name of a path, looked up in the directory at a cluster. -/
def lookupComponent (entries : Int → List DirectoryEntry) (name : List UInt8) (clusterId : Int) :
    Option DirectoryEntry :=
  if name.length > 42 then none else lookup name (entries clusterId)

/-- The file that a path names: the last component is no directory, and every other one is. -/
def resolve (entries : Int → List DirectoryEntry) : List (List UInt8) → Int → Option DirectoryEntry
  | [], _ => none
  | [name], clusterId => (lookupComponent entries name clusterId).filter fun e => !e.isDirectory
  | name :: next :: rest, clusterId => do
      let e ← (lookupComponent entries name clusterId).filter fun e => e.isDirectory
      resolve entries (next :: rest) e.clusterId

/-- The components of a path: both slashes separate, and leading ones are skipped. -/
def pathComponents (path : List UInt8) : List (List UInt8) :=
  ((convertSlashes path).dropWhile (· == 0x2f)).splitOn 0x2f

/-! ### Directories on the disk -/

variable (drive : Drive) (partition : FATXPartition)

/-- Sector `j` of a cluster. -/
def clusterSector (clusterId : Int) (j : Nat) : Nat :=
  u32 (partition.partitionStart + (partition.cluster1Address + (clusterId - 1).toNat * 0x4000) / 512 + j)

/-- Byte `k` of a cluster. -/
def clusterByte (clusterId : Int) (k : Nat) : UInt8 :=
  match drive (clusterSector partition clusterId (k / 512)) with
  | none => 0
  | some bytes => bytes (k % 512)

/-- Entry `i` of a cluster with these bytes. -/
def entryAt (bytes : Mem) (i : Nat) : DirectoryEntry :=
  let entry : Mem := fun k => bytes (i * 0x40 + k)
  { size := entry 0
    flags := entry 1
    name := cString (entry.bytesFrom 2 (min (entry 0).toNat 42))
    clusterId := int32 (entry.loadWord 0x2c)
    fileSize := entry.loadWord 0x30 }

/-- The 256 entries of a cluster. -/
def clusterEntries (clusterId : Int) : List DirectoryEntry :=
  (List.range 256).map (entryAt (clusterByte drive partition clusterId))

/-- A cluster of the partition that can be read. -/
structure InRange (clusterId : Int) : Prop where
  pos : 1 ≤ clusterId
  lt : clusterId < partition.clusterCount
  readable : ∀ j < 32, (drive (clusterSector partition clusterId j)).isSome

/-- The entry of a cluster in the chain map. -/
def chainEntry (clusterId : Int) : Nat :=
  if partition.chainMapEntrySize = 2 then partition.word clusterId else partition.dword clusterId

/-- The chain ends. -/
def IsEndMarker (v : Nat) : Prop :=
  if partition.chainMapEntrySize = 2 then v = 0xffff ∨ v = 0xfff8 else v = 0xffffffff ∨ v = 0xfffffff8

/-- The clusters from one on to the end of its chain, all of them in range. -/
inductive Chain : Int → List Int → Prop where
  | last {clusterId : Int} (here : InRange drive partition clusterId)
      (stop : IsEndMarker partition (chainEntry partition clusterId)) : Chain clusterId [clusterId]
  | step {clusterId : Int} {rest : List Int} (here : InRange drive partition clusterId)
      (next : Chain (int32 (chainEntry partition clusterId)) rest) : Chain clusterId (clusterId :: rest)

open Classical in
/-- The entries of the directory that begins at a cluster. -/
noncomputable def entries (clusterId : Int) : List DirectoryEntry :=
  if h : ∃ chain, Chain drive partition clusterId chain then
    h.choose.flatMap (clusterEntries drive partition)
  else []

/-- The directories that a path can lead to. -/
inductive IsDirectory : Int → Prop where
  | root : IsDirectory 1
  | entry {clusterId : Int} {name : List UInt8} {e : DirectoryEntry} (dir : IsDirectory clusterId)
      (found : lookup name (entries drive partition clusterId) = some e) (isDir : e.isDirectory) :
      IsDirectory e.clusterId

end Cromwell.Fatx
