/-
Module: Cromwell.Fatx.Resolution
Layer: Proofs
Purpose: `FATXFindFile` finds what the path names. A cluster is read as it is on the disk, the loop over its
  entries is one stretch of the lookup, the loop over the clusters follows the chain, and the recursion follows the
  components of the path.
Imports: Cromwell.Lib.Split, Cromwell.Fatx.Directory
Trusted boundary: none
Main exports: rawReadLoop_eq, loadFATXCluster_eq, scanEntries_spec, searchClusters_spec, fatxFindFile_resolves
-/
import Cromwell.Lib.Split
import Cromwell.Fatx.Directory

namespace Cromwell.Fatx

open ByteMemory
open Cromwell.BootLibrary (cString cString_zero_notMem strncmp strncmp_eq_zero strrchr0 strrchr0_eq_none
  strrchr0_eq_some)

variable {drive : Drive} {partition : FATXPartition}

/-! ### Reading a cluster -/

/-- Byte `k` from a sector on. -/
def sectorByte (drive : Drive) (sector k : Nat) : UInt8 :=
  match drive (u32 (sector + k / 512)) with
  | none => 0
  | some bytes => bytes (k % 512)

/-- The loop reads what is on the disk, and nothing else is written. -/
theorem rawReadLoop_eq (rounds : Nat) {sector byteLen byteRead : Nat} {buf : Mem} (hrounds : byteLen ≤ rounds)
    (hread : ∀ k < byteLen, (drive (u32 (sector + k / 512))).isSome) :
    rawReadLoop drive rounds sector byteLen byteRead buf =
      (byteRead + byteLen, buf.write byteRead byteLen (sectorByte drive sector)) := by
  induction rounds generalizing sector byteLen byteRead buf with
  | zero =>
      obtain rfl : byteLen = 0 := Nat.le_zero.mp hrounds
      rw [rawReadLoop, Mem.write_zero, Nat.add_zero]
  | succ rounds ih =>
      rw [rawReadLoop]
      by_cases hzero : byteLen = 0
      · subst hzero
        rw [if_pos rfl, Mem.write_zero, Nat.add_zero]
      · obtain ⟨bytes, hbytes⟩ := Option.isSome_iff_exists.mp (hread 0 (by omega))
        rw [Nat.zero_div, Nat.add_zero] at hbytes
        rw [if_neg hzero]
        dsimp only
        rw [hbytes]
        dsimp only
        have hthis : ∀ n, n ≤ 512 → n ≤ byteLen → 1 ≤ n → (n = 512 ∨ n = byteLen) →
            rawReadLoop drive rounds (sector + 1) (byteLen - n) (byteRead + n) (buf.write byteRead n bytes) =
              (byteRead + byteLen, buf.write byteRead byteLen (sectorByte drive sector)) := by
          intro n hle hlen hpos hn
          -- A short piece is the last one, so what follows starts at a sector.
          have hnext : ∀ k, k < byteLen - n → (k + n) / 512 = k / 512 + 1 ∧ (k + n) % 512 = k % 512 := by
            intro k hk
            omega
          rw [ih (by omega) (fun k hk => by
            have hk' := hread (k + n) (by omega)
            rwa [(hnext k hk).1, show sector + (k / 512 + 1) = sector + 1 + k / 512 by omega] at hk')]
          have hfirst : ∀ k < n, bytes k = sectorByte drive sector k := by
            intro k hk
            rw [sectorByte, Nat.div_eq_of_lt (Nat.lt_of_lt_of_le hk hle), Nat.add_zero, hbytes]
            dsimp only
            rw [Nat.mod_eq_of_lt (Nat.lt_of_lt_of_le hk hle)]
          have hrest : ∀ k < byteLen - n, sectorByte drive (sector + 1) k = sectorByte drive sector (n + k) := by
            intro k hk
            obtain ⟨hdiv, hmod⟩ := hnext k hk
            rw [sectorByte, sectorByte, Nat.add_comm n, hdiv, hmod,
              show sector + (k / 512 + 1) = sector + 1 + k / 512 by omega]
          rw [Mem.write_congr hfirst, Mem.write_congr hrest, Mem.write_append, Nat.add_assoc,
            Nat.add_sub_of_le hlen]
        split
        · exact hthis byteLen (by omega) (Nat.le_refl _) (by omega) (Or.inr rfl)
        · exact hthis 512 (Nat.le_refl _) (by omega) (by omega) (Or.inl rfl)

/-- A read from a sector boundary. -/
theorem fatxRawRead_aligned (ba : Mem) {sector byteOffset byteLen : Nat} {buf : Mem} (hoff : byteOffset % 512 = 0)
    (hread : ∀ k < byteLen, (drive (u32 (sector + byteOffset / 512 + k / 512))).isSome) :
    fatxRawRead drive ba sector byteOffset byteLen buf =
      some (byteLen, buf.write 0 byteLen (sectorByte drive (sector + byteOffset / 512))) := by
  rw [fatxRawRead]
  by_cases hzero : byteLen = 0
  · subst hzero
    rw [if_pos rfl, Mem.write_zero]
  · rw [if_neg hzero, if_neg (by rw [hoff]; decide), rawReadLoop_eq byteLen (Nat.le_refl _) hread, Nat.zero_add]

theorem chainTableSize_mod (clusterCount chainMapEntrySize : Nat) :
    chainTableSize clusterCount chainMapEntrySize % 4096 = 0 := by
  rw [chainTableSize, fatxChaintableBlocksize]
  split
  case isTrue =>
    rw [u32]
    omega
  case isFalse h =>
    exact not_not.mp h

/-- A cluster in range begins on a sector boundary. -/
theorem clusterAddress_eq (hp : partition.Opened) {clusterId : Int} (hpos : 1 ≤ clusterId)
    (hlt : clusterId < partition.clusterCount) :
    clusterAddress partition clusterId = partition.cluster1Address + (clusterId - 1).toNat * 0x4000 ∧
      (partition.cluster1Address + (clusterId - 1).toNat * 0x4000) % 512 = 0 := by
  have hmod := chainTableSize_mod partition.clusterCount partition.chainMapEntrySize
  have hcount : partition.clusterCount < 2 ^ 32 := by
    rw [hp.clusterCount]
    exact Nat.mod_lt _ (by decide)
  have haddress : partition.cluster1Address < 2 ^ 32 := by
    rw [hp.cluster1Address]
    exact Nat.mod_lt _ (by decide)
  have haligned : partition.cluster1Address % 512 = 0 := by
    rw [hp.cluster1Address, u32, fatxPartitionHeadersize]
    omega
  have hu64 : toU64 (clusterId - 1) = (clusterId - 1).toNat := by
    rw [toU64, Int.emod_eq_of_lt (by omega) (by omega)]
  constructor
  · rw [clusterAddress, hu64, hp.clusterSize]
    omega
  · omega

/-- `LoadFATXCluster` loads the bytes of the cluster. -/
theorem loadFATXCluster_eq (hp : partition.Opened) (ba : Mem) {clusterId : Int}
    (hc : InRange drive partition clusterId) (clusterData : Mem) :
    loadFATXCluster drive ba partition clusterId clusterData =
      some (clusterData.write 0 0x4000 (clusterByte drive partition clusterId)) := by
  obtain ⟨haddress, haligned⟩ := clusterAddress_eq hp hc.pos hc.lt
  have hbyte : sectorByte drive
      (partition.partitionStart + (partition.cluster1Address + (clusterId - 1).toNat * 0x4000) / 512) =
      clusterByte drive partition clusterId := rfl
  rw [loadFATXCluster, haddress, hp.clusterSize, fatxRawRead_aligned ba haligned, hbyte, Option.map_some]
  intro k hk
  exact hc.readable (k / 512) (by omega)

/-! ### Scanning the entries -/

/-- What a scan says about the lookup of the name in the entries it has passed and any that follow. -/
def ScanResult.Agrees (result : ScanResult) (name : List UInt8) (passed : List DirectoryEntry) : Prop :=
  match result with
  | .nextCluster => ∀ rest, lookup name (passed ++ rest) = lookup name rest
  | .endOfDirectory => ∀ rest, lookup name (passed ++ rest) = none
  | .invalidSize => ∀ rest, lookup name (passed ++ rest) = none
  | .found flags entryClusterId fileSize => ∃ e : DirectoryEntry,
      e.flags = flags ∧ e.clusterId = int32 entryClusterId ∧ e.fileSize = fileSize ∧
        ∀ rest, lookup name (passed ++ rest) = some e

/-- An entry that is skipped leaves the lookup to the others. -/
theorem ScanResult.Agrees.skip {result : ScanResult} {name : List UInt8} {passed : List DirectoryEntry}
    {e : DirectoryEntry} (h : result.Agrees name passed)
    (hskip : ∀ rest, lookup name (e :: rest) = lookup name rest) : result.Agrees name (e :: passed) := by
  cases result with
  | nextCluster =>
      exact fun rest => (hskip _).trans (h rest)
  | endOfDirectory =>
      exact fun rest => (hskip _).trans (h rest)
  | invalidSize =>
      exact fun rest => (hskip _).trans (h rest)
  | found flags entryClusterId fileSize =>
      obtain ⟨e', hflags, hcluster, hsize, hlookup⟩ := h
      exact ⟨e', hflags, hcluster, hsize, fun rest => (hskip _).trans (hlookup rest)⟩

/-- The tests on the length byte are those of the entry. -/
theorem checkForLastDirectoryEntry_eq (data : Mem) (i : Nat) :
    checkForLastDirectoryEntry (fun k => data (i * fatxDirectoryentrySize + k)) = (entryAt data i).isEnd := by
  rw [checkForLastDirectoryEntry, DirectoryEntry.isEnd, Bool.or_comm]
  rfl

theorem isDeleted_iff (data : Mem) (i : Nat) :
    (entryAt data i).isDeleted = true ↔ (data (i * fatxDirectoryentrySize + 0)).toNat = 0xE5 := by
  rw [DirectoryEntry.isDeleted, beq_iff_eq, ← UInt8.toNat_inj]
  rfl

/-- An entry that does not end the directory has a length. -/
theorem isInvalid_iff {data : Mem} {i : Nat} (hend : ¬ (entryAt data i).isEnd = true) :
    (entryAt data i).isInvalid = true ↔ (data (i * fatxDirectoryentrySize + 0)).toNat < 1 ∨
      (data (i * fatxDirectoryentrySize + 0)).toNat > fatxFilenameMax := by
  have hzero : ¬ (data (i * fatxDirectoryentrySize + 0)).toNat < 1 := by
    intro h
    apply hend
    rw [DirectoryEntry.isEnd, Bool.or_eq_true, beq_iff_eq, ← UInt8.toNat_inj]
    exact Or.inl (Nat.lt_one_iff.mp h)
  rw [DirectoryEntry.isInvalid, decide_eq_true_iff, or_iff_right hzero]
  rfl

/-- The name of a valid entry. -/
theorem entryAt_name {data : Mem} {i : Nat} (hinvalid : ¬ (entryAt data i).isInvalid = true) :
    (entryAt data i).name = cString (Mem.bytesFrom (fun k => data (i * fatxDirectoryentrySize + k)) 2
      (data (i * fatxDirectoryentrySize + 0)).toNat) := by
  have hle : (data (i * 0x40 + 0)).toNat ≤ 42 := by
    by_contra hgt
    exact hinvalid (decide_eq_true (Nat.lt_of_not_le hgt))
  rw [entryAt]
  dsimp only
  rw [Nat.min_eq_left hle, fatxDirectoryentrySize]

/-- is it what we're looking for... -/
theorem matches_iff {data : Mem} {i : Nat} (hinvalid : ¬ (entryAt data i).isInvalid = true) (name : List UInt8) :
    name.length = (entryAt data i).name.length ∧ strncmp (entryAt data i).name name name.length = 0 ↔
      (entryAt data i).name = name := by
  have hzero : (0 : UInt8) ∉ (entryAt data i).name := by
    rw [entryAt_name hinvalid]
    exact cString_zero_notMem _
  constructor
  · rintro ⟨hlen, hcmp⟩
    exact (strncmp_eq_zero hzero hlen).mp hcmp
  · intro hname
    exact ⟨by rw [hname], (strncmp_eq_zero hzero (by rw [hname])).mpr hname⟩

/-- The loop over the entries, as it is said of entries. -/
theorem scanEntries_succ (name : List UInt8) (data : Mem) (left i : Nat) :
    scanEntries name data (left + 1) i =
      if (entryAt data i).isEnd then .endOfDirectory
      else if (entryAt data i).isDeleted then scanEntries name data left (i + 1)
      else if (entryAt data i).isInvalid then .invalidSize
      else if (entryAt data i).name = name then
        .found (data (i * fatxDirectoryentrySize + 1))
          (Mem.loadWord (fun k => data (i * fatxDirectoryentrySize + k)) 0x2c)
          (Mem.loadWord (fun k => data (i * fatxDirectoryentrySize + k)) 0x30)
      else scanEntries name data left (i + 1) := by
  rw [scanEntries]
  dsimp only
  rw [checkForLastDirectoryEntry_eq]
  by_cases hend : (entryAt data i).isEnd = true
  · rw [if_pos hend, if_pos hend]
  · rw [if_neg hend, if_neg hend]
    by_cases hdel : (entryAt data i).isDeleted = true
    · rw [if_pos ((isDeleted_iff data i).mp hdel), if_pos hdel]
    · rw [if_neg fun h => hdel ((isDeleted_iff data i).mpr h), if_neg hdel]
      by_cases hinvalid : (entryAt data i).isInvalid = true
      · rw [if_pos ((isInvalid_iff hend).mp hinvalid), if_pos hinvalid]
      · rw [if_neg fun h => hinvalid ((isInvalid_iff hend).mpr h), if_neg hinvalid, ← entryAt_name hinvalid]
        exact if_congr (matches_iff hinvalid name) rfl rfl

/-- The loop over the entries is a stretch of the lookup. -/
theorem scanEntries_spec (name : List UInt8) (clusterData : Mem) (left i : Nat) :
    (scanEntries name clusterData left i).Agrees name ((List.range' i left).map (entryAt clusterData)) := by
  induction left generalizing i with
  | zero =>
      exact fun rest => rfl
  | succ left ih =>
      rw [List.range'_succ, List.map_cons, scanEntries_succ]
      by_cases hend : (entryAt clusterData i).isEnd = true
      · rw [if_pos hend]
        exact fun rest => if_pos hend
      · rw [if_neg hend]
        by_cases hdel : (entryAt clusterData i).isDeleted = true
        · rw [if_pos hdel]
          refine (ih (i + 1)).skip fun rest => ?_
          rw [lookup, if_neg hend, if_pos hdel]
        · rw [if_neg hdel]
          by_cases hinvalid : (entryAt clusterData i).isInvalid = true
          · rw [if_pos hinvalid]
            intro rest
            rw [List.cons_append, lookup, if_neg hend, if_neg hdel, if_pos hinvalid]
          · rw [if_neg hinvalid]
            by_cases hname : (entryAt clusterData i).name = name
            · rw [if_pos hname]
              refine ⟨entryAt clusterData i, rfl, rfl, rfl, fun rest => ?_⟩
              rw [List.cons_append, lookup, if_neg hend, if_neg hdel, if_neg hinvalid, if_pos hname]
            · rw [if_neg hname]
              refine (ih (i + 1)).skip fun rest => ?_
              rw [lookup, if_neg hend, if_neg hdel, if_neg hinvalid, if_neg hname]

/-! ### Following the chain -/

/-- A cluster is followed by one in range or by the end, and the driver takes the same step. -/
theorem getNextClusterInChain_last (hp : partition.Opened) {clusterId : Int}
    (stop : IsEndMarker partition (chainEntry partition clusterId)) :
    getNextClusterInChain partition clusterId = -1 := by
  rw [IsEndMarker, chainEntry] at stop
  rw [getNextClusterInChain]
  have hsize := hp.chainMapEntrySize
  by_cases h2 : partition.chainMapEntrySize = 2
  · rw [if_pos h2, if_pos h2] at stop
    simp only [if_pos h2]
    exact if_pos stop
  · have h4 : partition.chainMapEntrySize = 4 := by
      split at hsize
      · exact hsize
      · exact absurd hsize h2
    rw [if_neg h2, if_neg h2] at stop
    simp only [if_neg h2, if_pos h4]
    exact if_pos stop

theorem getNextClusterInChain_step (hp : partition.Opened) {clusterId : Int}
    (hpos : 1 ≤ int32 (chainEntry partition clusterId))
    (hlt : int32 (chainEntry partition clusterId) < partition.clusterCount) :
    getNextClusterInChain partition clusterId = int32 (chainEntry partition clusterId) := by
  have hsize := hp.chainMapEntrySize
  rw [getNextClusterInChain]
  rw [chainEntry] at hpos hlt ⊢
  by_cases h2 : partition.chainMapEntrySize = 2
  · have hcount : partition.clusterCount < 0xfff4 := by
      by_contra hbig
      rw [if_pos (Nat.le_of_not_lt hbig)] at hsize
      omega
    simp only [if_pos h2] at hpos hlt ⊢
    -- No id of the partition is as large as the markers.
    refine if_neg fun hmarker => ?_
    rcases hmarker with h | h <;> rw [h, int32] at hlt <;> norm_num at hlt <;> omega
  · have h4 : partition.chainMapEntrySize = 4 := by
      split at hsize
      · exact hsize
      · exact absurd hsize h2
    simp only [if_neg h2, if_pos h4] at hpos hlt ⊢
    -- The markers are negative ids.
    refine if_neg fun hmarker => ?_
    rcases hmarker with h | h <;> rw [h, int32] at hpos <;> norm_num at hpos

theorem entryAt_congr {bytes bytes' : Mem} {i : Nat}
    (h : ∀ k < 0x40, bytes (i * 0x40 + k) = bytes' (i * 0x40 + k)) : entryAt bytes i = entryAt bytes' i := by
  have hword : ∀ k, k + 3 < 0x40 → Mem.loadWord (fun k => bytes (i * 0x40 + k)) k =
      Mem.loadWord (fun k => bytes' (i * 0x40 + k)) k := by
    intro k hk
    rw [Mem.loadWord, Mem.loadWord, h k (by omega), h (k + 1) (by omega), h (k + 2) (by omega), h (k + 3) hk]
  have hname : Mem.bytesFrom (fun k => bytes (i * 0x40 + k)) 2 (min (bytes (i * 0x40 + 0)).toNat 42) =
      Mem.bytesFrom (fun k => bytes' (i * 0x40 + k)) 2 (min (bytes (i * 0x40 + 0)).toNat 42) :=
    Mem.bytesFrom_congr fun k hk => h (2 + k) (by omega)
  simp only [entryAt]
  rw [hname, hword 0x2c (by decide), hword 0x30 (by decide), h 0 (by decide), h 1 (by decide)]

/-- The entries that a cluster adds are those on the disk. -/
theorem loaded_entries (clusterId : Int) (clusterData : Mem) :
    (List.range' 0 256).map (entryAt (clusterData.write 0 0x4000 (clusterByte drive partition clusterId))) =
      clusterEntries drive partition clusterId := by
  rw [clusterEntries, List.range_eq_range']
  refine List.map_congr_left fun i hi => entryAt_congr fun k hk => ?_
  have hi : i < 256 := by simpa using hi
  rw [Mem.write, if_pos (by omega), Nat.sub_zero]

/-- What the search of a directory says about the lookup of the name in its entries. -/
def ScanResult.Decides (result : ScanResult) (name : List UInt8) (entries : List DirectoryEntry) : Prop :=
  match result with
  | .found flags entryClusterId fileSize => ∃ e : DirectoryEntry,
      e.flags = flags ∧ e.clusterId = int32 entryClusterId ∧ e.fileSize = fileSize ∧ lookup name entries = some e
  | _ => lookup name entries = none

/-- One round of the loop over the clusters. -/
theorem searchClusters_round (hp : partition.Opened) (ba : Mem) {name : List UInt8} {clusterId : Int}
    (hc : InRange drive partition clusterId) {rounds : Nat} {rest : List DirectoryEntry}
    (hrest : ∀ clusterData, ∃ result,
      searchClusters drive ba partition name rounds (getNextClusterInChain partition clusterId) clusterData =
        some result ∧ result.Decides name rest) (clusterData : Mem) :
    ∃ result, searchClusters drive ba partition name (rounds + 1) clusterId clusterData = some result ∧
      result.Decides name (clusterEntries drive partition clusterId ++ rest) := by
  have hpos := hc.pos
  have hscan := scanEntries_spec name
    (clusterData.write 0 0x4000 (clusterByte drive partition clusterId)) 256 0
  rw [loaded_entries] at hscan
  have hcount : partition.clusterSize / fatxDirectoryentrySize = 256 := by
    rw [hp.clusterSize]
    rfl
  rw [searchClusters, if_neg (by omega), loadFATXCluster_eq hp ba hc, hcount]
  dsimp only [Option.bind_some, bind]
  generalize scanEntries name (clusterData.write 0 0x4000 (clusterByte drive partition clusterId)) 256 0 = scan at *
  cases scan with
  | nextCluster =>
      obtain ⟨result, hresult, hdecides⟩ := hrest (clusterData.write 0 0x4000 (clusterByte drive partition clusterId))
      refine ⟨result, hresult, ?_⟩
      simp only [ScanResult.Decides, hscan rest] at hdecides ⊢
      exact hdecides
  | endOfDirectory =>
      exact ⟨_, rfl, hscan rest⟩
  | invalidSize =>
      exact ⟨_, rfl, hscan rest⟩
  | found flags entryClusterId fileSize =>
      obtain ⟨e, hflags, hcluster, hsize, hlookup⟩ := hscan
      exact ⟨_, rfl, e, hflags, hcluster, hsize, hlookup rest⟩

theorem Chain.inRange {clusterId : Int} {chain : List Int} (h : Chain drive partition clusterId chain) :
    InRange drive partition clusterId := by
  cases h with
  | last here stop =>
      exact here
  | step here next =>
      exact here

/-- The loop over the clusters looks the name up in the whole directory. -/
theorem searchClusters_spec (hp : partition.Opened) (ba : Mem) (name : List UInt8) {clusterId : Int}
    {chain : List Int} (hchain : Chain drive partition clusterId chain) {rounds : Nat}
    (hrounds : chain.length < rounds) (clusterData : Mem) :
    ∃ result, searchClusters drive ba partition name rounds clusterId clusterData = some result ∧
      result.Decides name (chain.flatMap (clusterEntries drive partition)) := by
  induction hchain generalizing rounds clusterData with
  | last here stop =>
      rw [List.length_singleton] at hrounds
      obtain ⟨rounds, rfl⟩ : ∃ n, rounds = n + 1 + 1 := ⟨rounds - 2, by omega⟩
      rw [List.flatMap_cons, List.flatMap_nil]
      refine searchClusters_round hp ba here (fun clusterData => ?_) clusterData
      rw [getNextClusterInChain_last hp stop, searchClusters, if_pos rfl]
      exact ⟨_, rfl, rfl⟩
  | step here next ih =>
      rw [List.length_cons] at hrounds
      obtain ⟨rounds, rfl⟩ : ∃ n, rounds = n + 1 := ⟨rounds - 1, by omega⟩
      rw [List.flatMap_cons]
      refine searchClusters_round hp ba here (fun clusterData => ?_) clusterData
      rw [getNextClusterInChain_step hp next.inRange.pos next.inRange.lt]
      exact ih (by omega) clusterData

theorem Chain.unique {clusterId : Int} {chain chain' : List Int} (hp : partition.Opened)
    (h : Chain drive partition clusterId chain) (h' : Chain drive partition clusterId chain') : chain = chain' := by
  induction h generalizing chain' with
  | last here stop =>
      cases h' with
      | last => rfl
      | step _ next =>
          have hnext := getNextClusterInChain_step hp next.inRange.pos next.inRange.lt
          have hpos := next.inRange.pos
          rw [getNextClusterInChain_last hp stop] at hnext
          omega
  | step here next ih =>
      cases h' with
      | last _ stop =>
          have hnext := getNextClusterInChain_step hp next.inRange.pos next.inRange.lt
          have hpos := next.inRange.pos
          rw [getNextClusterInChain_last hp stop] at hnext
          omega
      | step _ next' => rw [ih next']

theorem entries_eq (hp : partition.Opened) {clusterId : Int} {chain : List Int}
    (h : Chain drive partition clusterId chain) :
    entries drive partition clusterId = chain.flatMap (clusterEntries drive partition) := by
  have hex : ∃ chain, Chain drive partition clusterId chain := ⟨chain, h⟩
  rw [entries, dif_pos hex, Chain.unique hp hex.choose_spec h]

/-! ### Following the path -/

/-- What `FATXFindFile` leaves in `filename` and the padding behind it. -/
def storedName (name : List UInt8) (old : Mem) : Mem :=
  fun i => if i < 42 then name.getD i 0 else if i = 42 ∧ name.length = 42 then 0 else old i

/-- The file info after a path has been resolved to an entry or to nothing. -/
def FATXFILEINFO.resolved (fileinfo : FATXFILEINFO) (name : List UInt8) : Option DirectoryEntry → FATXFILEINFO
  | none => fileinfo
  | some e =>
      { fileinfo with clusterId := e.clusterId, fileSize := e.fileSize, filename := storedName name fileinfo.filename }

theorem store_eq (fileinfo : FATXFILEINFO) {name : List UInt8} (hname : name.length ≤ 42) {e : DirectoryEntry}
    {entryClusterId fileSize : Nat} (hcluster : e.clusterId = int32 entryClusterId) (hsize : e.fileSize = fileSize) :
    fileinfo.store name entryClusterId fileSize = fileinfo.resolved name (some e) := by
  have hbytes : (fileinfo.filename.fill 0 fatxFilenameMax 0).write 0 (name.length + 1) (fun i => name.getD i 0) =
      storedName name fileinfo.filename := by
    funext i
    dsimp only [Mem.write, Mem.fill, storedName, fatxFilenameMax]
    by_cases hi : i < name.length + 1
    · rw [if_pos (by omega), Nat.sub_zero]
      by_cases h42 : i < 42
      · rw [if_pos h42]
      · rw [if_neg h42, if_pos (by omega), List.getD_eq_default _ _ (by omega)]
    · rw [if_neg (by omega)]
      by_cases h42 : i < 42
      · rw [if_pos (by omega), if_pos h42, List.getD_eq_default _ _ (by omega)]
      · rw [if_neg (by omega), if_neg h42, if_neg (by omega)]
  rw [FATXFILEINFO.store, FATXFILEINFO.resolved, hbytes, hcluster, hsize]

/-- A directory of the partition, and how many rounds its search takes. -/
theorem searchClusters_entries (hp : partition.Opened) (ba : Mem) {clusterId : Int}
    (hchain : ∃ chain, Chain drive partition clusterId chain) :
    ∃ bound, ∀ rounds ≥ bound, ∀ name clusterData, ∃ result,
      searchClusters drive ba partition name rounds clusterId clusterData = some result ∧
        result.Decides name (entries drive partition clusterId) := by
  obtain ⟨chain, hchain⟩ := hchain
  refine ⟨chain.length + 1, fun rounds hrounds name clusterData => ?_⟩
  rw [entries_eq hp hchain]
  exact searchClusters_spec hp ba name hchain hrounds clusterData

theorem isDirectory_iff (e : DirectoryEntry) : e.isDirectory = true ↔ e.flags &&& fatxFileattrDirectory ≠ 0 :=
  bne_iff_ne

/-- The last component. -/
theorem fatxFindFileIn_last (hp : partition.Opened) (ba : Mem) (stack : Nat → Mem) {name : List UInt8}
    (hname : (0x2f : UInt8) ∉ name) {clusterId : Int} (hchain : ∃ chain, Chain drive partition clusterId chain)
    (fileinfo : FATXFILEINFO) :
    ∃ bound, ∀ rounds ≥ bound, fatxFindFileIn drive ba stack partition rounds name clusterId fileinfo =
      some ((resolve (entries drive partition) [name] clusterId).isSome,
        fileinfo.resolved name (resolve (entries drive partition) [name] clusterId)) := by
  obtain ⟨bound, hbound⟩ := searchClusters_entries hp ba hchain
  refine ⟨bound, fun rounds hrounds => ?_⟩
  obtain ⟨result, hresult, hdecides⟩ := hbound rounds hrounds name (stack name.length)
  rw [fatxFindFileIn]
  split
  case h_2 hsep =>
    exact absurd (hsep.symm.trans (strrchr0_eq_none.mpr hname)) (by simp)
  case h_1 =>
    rw [resolve, lookupComponent, fatxFilenameMax]
    by_cases hlong : name.length > 42
    · rw [if_pos hlong, if_pos hlong]
      rfl
    · rw [if_neg hlong, if_neg hlong, hresult]
      cases result with
      | nextCluster | endOfDirectory | invalidSize =>
          rw [hdecides]
          rfl
      | found flags entryClusterId fileSize =>
          obtain ⟨e, hflags, hcluster, hsize, hlookup⟩ := hdecides
          rw [hlookup, ← hflags]
          dsimp only
          by_cases hdir : e.isDirectory = true
          · rw [if_neg ((isDirectory_iff e).mp hdir)]
            simp [Option.filter, hdir, FATXFILEINFO.resolved]
          · rw [if_pos (not_not.mp fun h => hdir ((isDirectory_iff e).mpr h)),
              store_eq fileinfo (Nat.le_of_not_lt hlong) hcluster hsize]
            simp [Option.filter, hdir]

/-- A component in front of others. -/
theorem fatxFindFileIn_directory (hp : partition.Opened) (ba : Mem) (stack : Nat → Mem) {path name rest : List UInt8}
    (hsep : strrchr0 0x2f path = some (name, rest)) {clusterId : Int}
    (hchain : ∃ chain, Chain drive partition clusterId chain) (fileinfo : FATXFILEINFO) :
    ∃ bound, ∀ rounds ≥ bound, fatxFindFileIn drive ba stack partition rounds path clusterId fileinfo =
      match (lookupComponent (entries drive partition) name clusterId).filter (·.isDirectory) with
      | none => some (false, fileinfo)
      | some e => fatxFindFileIn drive ba stack partition rounds rest e.clusterId fileinfo := by
  obtain ⟨bound, hbound⟩ := searchClusters_entries hp ba hchain
  refine ⟨bound, fun rounds hrounds => ?_⟩
  obtain ⟨result, hresult, hdecides⟩ := hbound rounds hrounds name (stack path.length)
  rw [fatxFindFileIn]
  split
  case h_1 hnone =>
    rw [hsep] at hnone
    cases hnone
  case h_2 name' rest' hsome =>
    rw [hsep] at hsome
    cases hsome
    rw [lookupComponent, fatxFilenameMax]
    by_cases hlong : name.length > 42
    · rw [if_pos hlong, if_pos hlong]
      rfl
    · rw [if_neg hlong, if_neg hlong, hresult]
      cases result with
      | nextCluster | endOfDirectory | invalidSize =>
          rw [hdecides]
          rfl
      | found flags entryClusterId fileSize =>
          obtain ⟨e, hflags, hcluster, -, hlookup⟩ := hdecides
          rw [hlookup, ← hflags]
          dsimp only
          by_cases hdir : e.isDirectory = true
          · rw [if_pos ((isDirectory_iff e).mp hdir), Option.filter_some_pos hdir, ← hcluster]
          · rw [if_neg fun h => hdir ((isDirectory_iff e).mpr h), Option.filter_some_neg (Bool.eq_false_of_not_eq_true hdir)]

/-- The path is resolved from any directory on. -/
theorem fatxFindFileIn_resolves (hp : partition.Opened) (ba : Mem) (stack : Nat → Mem)
    (hdirs : ∀ c, IsDirectory drive partition c → ∃ chain, Chain drive partition c chain) (fileinfo : FATXFILEINFO)
    (path : List UInt8) {clusterId : Int} (hdir : IsDirectory drive partition clusterId) :
    ∃ bound, ∀ rounds ≥ bound, fatxFindFileIn drive ba stack partition rounds path clusterId fileinfo =
      some ((resolve (entries drive partition) (path.splitOn 0x2f) clusterId).isSome,
        fileinfo.resolved ((path.splitOn 0x2f).getLastD [])
          (resolve (entries drive partition) (path.splitOn 0x2f) clusterId)) := by
  -- The rest of the path behind a slash is shorter.
  induction hlen : path.length using Nat.strong_induction_on generalizing path clusterId with
  | _ n ih =>
    cases hsep : strrchr0 0x2f path with
    | none =>
        have hlast := strrchr0_eq_none.mp hsep
        rw [splitOn_of_notMem hlast]
        exact fatxFindFileIn_last hp ba stack hlast (hdirs clusterId hdir) fileinfo
    | some parts =>
        obtain ⟨name, rest⟩ := parts
        obtain ⟨hpath, hname⟩ := strrchr0_eq_some hsep
        obtain ⟨bound, hbound⟩ := fatxFindFileIn_directory hp ba stack hsep (hdirs clusterId hdir) fileinfo
        obtain ⟨next, others, hrest⟩ := List.exists_cons_of_ne_nil
          (List.splitOnP_ne_nil (· == (0x2f : UInt8)) rest)
        have hcomponents : path.splitOn 0x2f = name :: next :: others := by
          rw [hpath, splitOn_append rest hname]
          exact congrArg _ hrest
        rw [hcomponents, List.getLastD_cons, resolve]
        cases hfound : (lookupComponent (entries drive partition) name clusterId).filter (·.isDirectory) with
        | none =>
            refine ⟨bound, fun rounds hrounds => ?_⟩
            rw [hbound rounds hrounds, hfound]
            rfl
        | some e =>
            obtain ⟨hlookup, hisDir⟩ := Option.filter_eq_some_iff.mp hfound
            have hentry : IsDirectory drive partition e.clusterId := by
              rw [lookupComponent] at hlookup
              split at hlookup
              case isTrue => cases hlookup
              case isFalse => exact IsDirectory.entry hdir hlookup hisDir
            obtain ⟨bound', hbound'⟩ := ih rest.length
              (by rw [← hlen, hpath, List.length_append, List.length_cons]; omega) rest hentry rfl
            refine ⟨max bound bound', fun rounds hrounds => ?_⟩
            rw [hbound rounds (le_of_max_le_left hrounds), hfound]
            dsimp only
            rw [hbound' rounds (le_of_max_le_right hrounds), show rest.splitOn 0x2f = next :: others from hrest]
            rfl

/-- `FATXFindFile` resolves the path from the root: the value that is returned, the path with its slashes
    converted, and the file info. -/
theorem fatxFindFile_resolves (hp : partition.Opened)
    (hdirs : ∀ c, IsDirectory drive partition c → ∃ chain, Chain drive partition c chain)
    (ba : Mem) (stack : Nat → Mem) (fileinfo : FATXFILEINFO) (path : List UInt8) :
    ∃ bound, ∀ rounds ≥ bound,
      fatxFindFile drive ba stack partition rounds path fatxRootFatCluster fileinfo =
        some ((resolve (entries drive partition) (pathComponents path) fatxRootFatCluster).isSome,
          convertSlashes path,
          fileinfo.resolved ((pathComponents path).getLastD [])
            (resolve (entries drive partition) (pathComponents path) fatxRootFatCluster)) := by
  obtain ⟨bound, hbound⟩ := fatxFindFileIn_resolves hp ba stack hdirs fileinfo
    ((convertSlashes path).dropWhile (· == 0x2f)) IsDirectory.root
  refine ⟨bound, fun rounds hrounds => ?_⟩
  rw [fatxFindFile, fatxRootFatCluster, hbound rounds hrounds]
  rfl

/-- A small partition: the root directory has one cluster with the file `a` of three bytes at cluster 2. -/
def onePartition : FATXPartition :=
  { partitionStart := 0
    partitionSize := 0x10000
    clusterSize := 0x4000
    clusterCount := 4
    chainMapEntrySize := 2
    clusterChainMap := fun i => if i = 2 ∨ i = 3 then 0xff else 0
    cluster1Address := 0x2000 }

/-- The first sector of its root directory. -/
def oneFile : Mem := fun k =>
  if k = 0 then 1 else if k = 2 then 0x61 else if k = 0x2c then 2 else if k = 0x30 then 3 else 0

def oneDrive : Drive := fun sector => some (if sector = 16 then oneFile else fun _ => 0)

theorem onePartition_opened : onePartition.Opened := ⟨rfl, rfl, rfl, rfl⟩

theorem onePartition_chain : Chain oneDrive onePartition 1 [1] :=
  Chain.last ⟨by decide, by decide, fun _ _ => rfl⟩ (Or.inl (by decide))

theorem onePartition_lookup (name : List UInt8) :
    lookup name (entries oneDrive onePartition 1) =
      if [0x61] = name then some ⟨1, 0, [0x61], 2, 3⟩ else none := by
  have hfirst : entryAt (clusterByte oneDrive onePartition 1) 0 = ⟨1, 0, [0x61], 2, 3⟩ := by decide +kernel
  have hsecond : (entryAt (clusterByte oneDrive onePartition 1) 1).isEnd = true := by decide +kernel
  rw [entries_eq onePartition_opened onePartition_chain, List.flatMap_singleton, clusterEntries,
    List.range_eq_range', List.range'_succ, List.range'_succ, List.map_cons, List.map_cons, hfirst, lookup,
    lookup, if_pos hsecond]
  rfl

theorem onePartition_directories {c : Int} (h : IsDirectory oneDrive onePartition c) :
    ∃ chain, Chain oneDrive onePartition c chain := by
  suffices hroot : c = 1 from ⟨[1], hroot ▸ onePartition_chain⟩
  induction h with
  | root =>
      rfl
  | entry dir found isDir ih =>
      rw [ih, onePartition_lookup] at found
      split at found
      case isTrue =>
        cases found
        cases isDir
      case isFalse =>
        cases found

/-- `\a` is found there. -/
theorem fatxFindFile_resolves_one :
    ∃ bound, ∀ rounds ≥ bound,
      fatxFindFile oneDrive (fun _ => 0) (fun _ _ => 0) onePartition rounds [0x5c, 0x61] fatxRootFatCluster
          ⟨fun _ => 0, 0, 0, 0, 0⟩ =
        some (true, [0x2f, 0x61], ⟨storedName [0x61] fun _ => 0, 2, 3, 0, 0⟩) := by
  have hpath : pathComponents [0x5c, 0x61] = [[0x61]] := splitOn_of_notMem (show (0x2f : UInt8) ∉ [0x61] by decide)
  have hfile : resolve (entries oneDrive onePartition) [[0x61]] fatxRootFatCluster = some ⟨1, 0, [0x61], 2, 3⟩ := by
    rw [resolve, lookupComponent, if_neg (by decide), fatxRootFatCluster, onePartition_lookup]
    rfl
  obtain ⟨bound, hbound⟩ := fatxFindFile_resolves onePartition_opened (fun _ => onePartition_directories)
    (fun _ => 0) (fun _ _ => 0) ⟨fun _ => 0, 0, 0, 0, 0⟩ [0x5c, 0x61]
  refine ⟨bound, fun rounds hrounds => ?_⟩
  rw [hbound rounds hrounds, hpath, hfile]
  rfl

end Cromwell.Fatx
