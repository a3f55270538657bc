/-
Module: Cromwell.Fatx.Walkers
Layer: Model
Purpose: The other two functions that follow a cluster chain: the one that loads a file to memory, and the one that
  lists a directory. Both loops have a bound on their rounds, as a chain may have no end.
Imports: Cromwell.Fatx.FindFile
Trusted boundary: reviewed against src/fs/fatx/BootFATX.c
Main exports: fatxLoadFromDisk, EntryInfo, DumpLine, dumpEntries, dumpFATXTree
-/
import Cromwell.Fatx.FindFile

namespace Cromwell.Fatx

open ByteMemory
open Cromwell.BootLibrary (cString)

/-! ### Loading a file -/

/-- The variables of `FATXLoadFromDisk`. The size that is left is a signed integer there and its bits here, as
    it is compared with the unsigned size of a cluster. -/
structure LoadState where
  clusterId : Int
  clusterData : Mem
  fileSize : Nat
  fileRead : Nat
  ptr : Nat
  memory : Mem

/-- One round of `while(clusterId != -1)`. The memory beside the chain table may be where the file was loaded to, so
    it is a fault to look up the next cluster there. -/
def loadRound (drive : Drive) (ba : Mem) (partition : FATXPartition) (s : LoadState) : Option LoadState := do
  let clusterData ← loadFATXCluster drive ba partition s.clusterId s.clusterData
  let written := if s.fileSize ≤ partition.clusterSize then s.fileSize else partition.clusterSize
  if partition.HasEntry s.clusterId then
    some
      { clusterId := getNextClusterInChain partition s.clusterId
        clusterData := clusterData
        fileSize := sub32 s.fileSize written
        fileRead := u32 (s.fileRead + written)
        ptr := s.ptr + written
        memory := s.memory.write s.ptr written clusterData }
  else none

/-- `while(clusterId != -1)` of `FATXLoadFromDisk`. -/
def loadClusters (drive : Drive) (ba : Mem) (partition : FATXPartition) : Nat → LoadState → Option LoadState
  | 0, _ => none
  | rounds + 1, s =>
      if s.clusterId = -1 then some s
      else (loadRound drive ba partition s).bind (loadClusters drive ba partition rounds)

/-- `FATXLoadFromDisk`: the value that is returned, the file info and the memory, which is that of the file: the chain
    table is another piece of memory. -/
def fatxLoadFromDisk (drive : Drive) (ba clusterData : Mem) (partition : FATXPartition) (rounds : Nat)
    (fileinfo : FATXFILEINFO) (memory : Mem) : Option (Bool × FATXFILEINFO × Mem) :=
  (loadClusters drive ba partition rounds
    { clusterId := fileinfo.clusterId
      clusterData := clusterData
      fileSize := fileinfo.fileSize
      fileRead := 0
      ptr := fileinfo.buffer
      memory := memory }).map fun s =>
    -- check we actually found enough data
    (s.fileSize == 0, { fileinfo with fileRead := s.fileRead }, s.memory)

/-! ### Listing a directory -/

/-- What both walkers get out of an entry; `filenameSize` bytes are copied to `filename[50]`, and a NUL. -/
structure EntryInfo where
  filenameSize : Nat
  filename : List UInt8
  flags : UInt8
  entryClusterId : Nat
  fileSize : Nat
  deriving DecidableEq

/-- extract the filename, get rest of data -/
def entryInfo (curEntry : Mem) : EntryInfo :=
  { filenameSize := (curEntry 0).toNat
    filename := cString (curEntry.bytesFrom 2 (curEntry 0).toNat)
    flags := curEntry 1
    entryClusterId := curEntry.loadWord 0x2c
    fileSize := curEntry.loadWord 0x30 }

/-- `FATX_FILEATTR_READONLY`. -/
def fatxFileattrReadonly : UInt8 := 0x01

/-- `FATX_FILEATTR_HIDDEN`. -/
def fatxFileattrHidden : UInt8 := 0x02

/-- `FATX_FILEATTR_SYSTEM`. -/
def fatxFileattrSystem : UInt8 := 0x04

/-- `FATX_FILEATTR_ARCHIVE`. -/
def fatxFileattrArchive : UInt8 := 0x20

/-- `flagsStr`. -/
def flagsStr (flags : UInt8) : List Char :=
  [(fatxFileattrReadonly, 'R'), (fatxFileattrHidden, 'H'), (fatxFileattrSystem, 'S'), (fatxFileattrArchive, 'A')].map
    fun flag => if flags &&& flag.1 ≠ 0 then flag.2 else ' '

/-- What `_DumpFATXTree` prints. -/
inductive DumpLine where
  | invalidFilenameSize (filenameSize : Nat)
  | entry (filename : List UInt8) (flagsStr : List Char) (fileSize entryClusterId : Nat)
  deriving DecidableEq

/-- The line for an entry; a directory has no size. -/
def EntryInfo.line (info : EntryInfo) : DumpLine :=
  .entry info.filename (flagsStr info.flags)
    (if info.flags &&& fatxFileattrDirectory ≠ 0 then 0 else info.fileSize) info.entryClusterId

/-- What the loop over the entries of a cluster ends with; the last one is a name that does not fit into
    `filename[50]`. -/
inductive DumpResult where
  | nextCluster
  | endOfDirectory
  | overrun
  deriving DecidableEq

/-- `for(i=0; i< partition->clusterSize / FATX_DIRECTORYENTRY_SIZE; i++)` of `_DumpFATXTree`, with the entries
    that are left. The recursion into a directory is commented out in the source. -/
def dumpEntries (clusterData : Mem) : Nat → Nat → List DumpLine × DumpResult
  | 0, _ => ([], .nextCluster)
  | left + 1, i =>
      let curEntry : Mem := fun k => clusterData (i * fatxDirectoryentrySize + k)
      if checkForLastDirectoryEntry curEntry then ([], .endOfDirectory)
      else
        let filenameSize := (curEntry 0).toNat
        -- check if file is deleted
        if filenameSize = 0xE5 then dumpEntries clusterData left (i + 1)
        else
          -- an invalid size is only reported
          let report :=
            if filenameSize < 1 ∨ filenameSize > fatxFilenameMax then [.invalidFilenameSize filenameSize] else []
          -- the name and the NUL behind it
          if filenameSize + 1 > 50 then (report, .overrun)
          else
            let (lines, result) := dumpEntries clusterData left (i + 1)
            (report ++ (entryInfo curEntry).line :: lines, result)

/-- How far `_DumpFATXTree` has come. -/
inductive DumpEnd where
  | running
  | returned
  | fault
  deriving DecidableEq

/-- `_DumpFATXTree`: what it has printed after so many rounds of `while(clusterId != -1)`. -/
def dumpFATXTree (drive : Drive) (ba : Mem) (partition : FATXPartition) : Nat → Int → Mem → List DumpLine × DumpEnd
  | 0, _, _ => ([], .running)
  | rounds + 1, clusterId, clusterData =>
      if clusterId = -1 then ([], .returned)
      else
        match loadFATXCluster drive ba partition clusterId clusterData with
        | none => ([], .fault)
        | some clusterData =>
            match dumpEntries clusterData (partition.clusterSize / fatxDirectoryentrySize) 0 with
            | (lines, .overrun) => (lines, .fault)
            | (lines, .endOfDirectory) => (lines, .returned)
            | (lines, .nextCluster) =>
                let (rest, result) :=
                  dumpFATXTree drive ba partition rounds (getNextClusterInChain partition clusterId) clusterData
                (lines ++ rest, result)

end Cromwell.Fatx
