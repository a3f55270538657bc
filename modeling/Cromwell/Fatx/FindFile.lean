/-
Module: Cromwell.Fatx.FindFile
Layer: Model
Purpose: The search for a file in the directories of a FATX partition: the loop over the entries of a cluster with
  its four ways out, the loop over the clusters of a directory, and the recursion along the path.
Imports: Cromwell.BootLibrary, Cromwell.Fatx.Partition
Trusted boundary: reviewed against src/fs/fatx/BootFATX.c
Main exports: FATXFILEINFO, ScanResult, scanEntries, searchClusters, fatxFindFileIn, fatxFindFile
-/
import Cromwell.BootLibrary
import Cromwell.Fatx.Partition

namespace Cromwell.Fatx

open ByteMemory
open Cromwell.BootLibrary (cString strncmp strrchr0 strrchr0_eq_some)

/-- `FATX_FILENAME_MAX`. -/
def fatxFilenameMax : Nat := 42

/-- `FATX_DIRECTORYENTRY_SIZE`. -/
def fatxDirectoryentrySize : Nat := 0x40

/-- `FATX_FILEATTR_DIRECTORY`. -/
def fatxFileattrDirectory : UInt8 := 0x10

/-- `FATX_ROOT_FAT_CLUSTER`. -/
def fatxRootFatCluster : Int := 1

/-- `FATXFILEINFO`. The bytes in front of `clusterId` are the 42 of the file name and two of padding. -/
structure FATXFILEINFO where
  filename : Mem
  clusterId : Int
  fileSize : Nat
  fileRead : Nat
  buffer : Nat

/-- `checkForLastDirectoryEntry`. -/
def checkForLastDirectoryEntry (entry : Mem) : Bool := entry 0 == 0xff || entry 0 == 0

/-- What the loop over the entries of a cluster ends with. -/
inductive ScanResult where
  | nextCluster
  | endOfDirectory
  | invalidSize
  | found (flags : UInt8) (entryClusterId fileSize : Nat)
  deriving DecidableEq

/-- `for(i=0; i< partition->clusterSize / FATX_DIRECTORYENTRY_SIZE; i++)` of `_FATXFindFile`, with the entries
    that are left. -/
def scanEntries (seekFilename : List UInt8) (clusterData : Mem) : Nat → Nat → ScanResult
  | 0, _ => .nextCluster
  | left + 1, i =>
      let curEntry : Mem := fun k => clusterData (i * fatxDirectoryentrySize + k)
      if checkForLastDirectoryEntry curEntry then .endOfDirectory
      else
        let filenameSize := (curEntry 0).toNat
        -- check if file is deleted
        if filenameSize = 0xE5 then scanEntries seekFilename clusterData left (i + 1)
        else if filenameSize < 1 ∨ filenameSize > fatxFilenameMax then .invalidSize
        else
          let foundFilename := cString (curEntry.bytesFrom 2 filenameSize)
          let flags := curEntry 1
          let entryClusterId := curEntry.loadWord 0x2c
          let fileSize := curEntry.loadWord 0x30
          if seekFilename.length = foundFilename.length ∧
              strncmp foundFilename seekFilename seekFilename.length = 0 then
            .found flags entryClusterId fileSize
          else scanEntries seekFilename clusterData left (i + 1)

/-- `while(clusterId != -1)` of `_FATXFindFile`. A chain may have no end, so the rounds are bounded; there is no
    result when they do not suffice. -/
def searchClusters (drive : Drive) (ba : Mem) (partition : FATXPartition) (seekFilename : List UInt8) :
    Nat → Int → Mem → Option ScanResult
  | 0, _, _ => none
  | rounds + 1, clusterId, clusterData =>
      if clusterId = -1 then some .endOfDirectory
      else do
        let clusterData ← loadFATXCluster drive ba partition clusterId clusterData
        match scanEntries seekFilename clusterData (partition.clusterSize / fatxDirectoryentrySize) 0 with
        | .nextCluster =>
            searchClusters drive ba partition seekFilename rounds (getNextClusterInChain partition clusterId)
              clusterData
        | result => some result

/-- What `_FATXFindFile` stores for a file. -/
def FATXFILEINFO.store (fileinfo : FATXFILEINFO) (filename : List UInt8) (entryClusterId fileSize : Nat) :
    FATXFILEINFO :=
  { fileinfo with
    clusterId := int32 entryClusterId
    fileSize := fileSize
    filename := (fileinfo.filename.fill 0 fatxFilenameMax 0).write 0 (filename.length + 1)
      fun i => filename.getD i 0 }

/-- `_FATXFindFile`. The cluster buffer of a call is on the stack. -/
def fatxFindFileIn (drive : Drive) (ba : Mem) (stack : Nat → Mem) (partition : FATXPartition) (rounds : Nat)
    (filename : List UInt8) (clusterId : Int) (fileinfo : FATXFILEINFO) : Option (Bool × FATXFILEINFO) :=
  match _h : strrchr0 0x2f filename with
  | none =>
      -- looking for file
      if filename.length > fatxFilenameMax then some (false, fileinfo)
      else
        match searchClusters drive ba partition filename rounds clusterId (stack filename.length) with
        | none => none
        | some (.found flags entryClusterId fileSize) =>
            if flags &&& fatxFileattrDirectory = 0 then
              some (true, fileinfo.store filename entryClusterId fileSize)
            else some (false, fileinfo)
        | some _ => some (false, fileinfo)
  | some (seekFilename, rest) =>
      -- looking for directory
      if seekFilename.length > fatxFilenameMax then some (false, fileinfo)
      else
        match searchClusters drive ba partition seekFilename rounds clusterId (stack filename.length) with
        | none => none
        | some (.found flags entryClusterId _) =>
            if flags &&& fatxFileattrDirectory ≠ 0 then
              fatxFindFileIn drive ba stack partition rounds rest (int32 entryClusterId) fileinfo
            else some (false, fileinfo)
        | some _ => some (false, fileinfo)
termination_by filename.length
decreasing_by
  rw [(strrchr0_eq_some _h).1, List.length_append, List.length_cons]
  omega

/-- convert any '\' to '/' characters -/
def convertSlashes (filename : List UInt8) : List UInt8 := filename.map fun b => if b = 0x5c then 0x2f else b

/-- `FATXFindFile`: the value that is returned, the path as it is left behind, and the file info. -/
def fatxFindFile (drive : Drive) (ba : Mem) (stack : Nat → Mem) (partition : FATXPartition) (rounds : Nat)
    (filename : List UInt8) (clusterId : Int) (fileinfo : FATXFILEINFO) :
    Option (Bool × List UInt8 × FATXFILEINFO) :=
  let filename := convertSlashes filename
  -- skip over any leading / characters
  (fatxFindFileIn drive ba stack partition rounds (filename.dropWhile (· == 0x2f)) clusterId fileinfo).map
    fun result => (result.1, filename, result.2)

end Cromwell.Fatx
