/-
Module: Cromwell.Fatx.Listing
Layer: Proofs
Purpose: The listing of a directory beside the search in it. Each walker is stated entry by entry; they part where a
  length byte is not that of a name, which ends the search and is only reported by the listing.
Imports: Cromwell.Fatx.ChainWalk
Trusted boundary: DirectoryEnd, scanConsidered, searchConsidered, SameReading
Main exports: scanConsidered_result, dumpFATXTree_returned_iff, dumpFATXTree_returns_iff, same_reading_iff
-/
import Cromwell.Fatx.ChainWalk

namespace Cromwell.Fatx

open ByteMemory
open Cromwell.BootLibrary (cString strncmp)
open Walk (Reached Ends NoReturn)

variable {drive : Drive} {partition : FATXPartition}

/-! ### The listing, entry by entry -/

/-- The name and the NUL behind it fit into `filename[50]`, or nothing is copied. -/
def DirectoryEntry.Fits (e : DirectoryEntry) : Prop := e.isDeleted = true ∨ e.size.toNat < 50

/-- The entries that come before the end of the directory. -/
def beforeEnd (l : List DirectoryEntry) : List DirectoryEntry := l.takeWhile fun e => !e.isEnd

theorem beforeEnd_end {e : DirectoryEntry} (h : e.isEnd = true) (l : List DirectoryEntry) :
    beforeEnd (e :: l) = [] := by
  rw [beforeEnd, List.takeWhile_cons_of_neg (by rw [h]; decide)]

theorem beforeEnd_cons {e : DirectoryEntry} (h : ¬ e.isEnd = true) (l : List DirectoryEntry) :
    beforeEnd (e :: l) = e :: beforeEnd l := by
  rw [beforeEnd, List.takeWhile_cons_of_pos (by rw [Bool.eq_false_of_not_eq_true h]; rfl), beforeEnd]

/-- The report of a size that no name has. -/
def sizeReport (e : DirectoryEntry) : List DumpLine :=
  if e.isInvalid then [.invalidFilenameSize e.size.toNat] else []

/-- `curEntry`. -/
def rawEntry (data : Mem) (i : Nat) : Mem := fun k => data (i * fatxDirectoryentrySize + k)

/-- The loop over the entries, as it is said of entries. -/
theorem dumpEntries_succ (data : Mem) (left i : Nat) :
    dumpEntries data (left + 1) i =
      if (entryAt data i).isEnd then ([], .endOfDirectory)
      else if (entryAt data i).isDeleted then dumpEntries data left (i + 1)
      else if 50 ≤ (entryAt data i).size.toNat then (sizeReport (entryAt data i), .overrun)
      else
        (sizeReport (entryAt data i) ++ (entryInfo (rawEntry data i)).line :: (dumpEntries data left (i + 1)).1,
          (dumpEntries data left (i + 1)).2) := by
  rw [dumpEntries]
  dsimp only
  rw [checkForLastDirectoryEntry_eq]
  by_cases hend : (entryAt data i).isEnd = true
  · rw [if_pos hend, if_pos hend]
  · rw [if_neg hend, if_neg hend]
    by_cases hdel : (entryAt data i).isDeleted = true
    · rw [if_pos ((isDeleted_iff data i).mp hdel), if_pos hdel]
    · have hreport : sizeReport (entryAt data i) =
          if (data (i * fatxDirectoryentrySize + 0)).toNat < 1 ∨
              (data (i * fatxDirectoryentrySize + 0)).toNat > fatxFilenameMax then
            [.invalidFilenameSize (data (i * fatxDirectoryentrySize + 0)).toNat] else [] := by
        rw [sizeReport]
        exact if_congr (isInvalid_iff hend) rfl rfl
      rw [if_neg fun h => hdel ((isDeleted_iff data i).mpr h), if_neg hdel, ← hreport]
      exact if_congr Nat.lt_succ_iff rfl rfl

/-- What the result of the loop says about the entries that it has passed. -/
def DumpResult.Describes (result : DumpResult) (l : List DirectoryEntry) : Prop :=
  match result with
  | .nextCluster => (∀ e ∈ beforeEnd l, e.Fits) ∧ ∀ e ∈ l, ¬ e.isEnd = true
  | .endOfDirectory => (∀ e ∈ beforeEnd l, e.Fits) ∧ ∃ e ∈ l, e.isEnd = true
  | .overrun => ∃ e ∈ beforeEnd l, ¬ e.Fits

theorem DumpResult.Describes.cons {result : DumpResult} {l : List DirectoryEntry} (h : result.Describes l)
    {e : DirectoryEntry} (hend : ¬ e.isEnd = true) (hfits : e.Fits) : result.Describes (e :: l) := by
  have hall : (∀ e' ∈ beforeEnd l, e'.Fits) → ∀ e' ∈ beforeEnd (e :: l), e'.Fits := by
    intro hl e' he'
    rw [beforeEnd_cons hend] at he'
    rcases List.mem_cons.mp he' with rfl | hmem
    · exact hfits
    · exact hl e' hmem
  cases result with
  | nextCluster =>
      refine ⟨hall h.1, fun e' he' => ?_⟩
      rcases List.mem_cons.mp he' with rfl | hmem
      · exact hend
      · exact h.2 e' hmem
  | endOfDirectory =>
      obtain ⟨e', he', hend'⟩ := h.2
      exact ⟨hall h.1, e', List.mem_cons_of_mem _ he', hend'⟩
  | overrun =>
      obtain ⟨e', he', hlong⟩ := h
      refine ⟨e', ?_, hlong⟩
      rw [beforeEnd_cons hend]
      exact List.mem_cons_of_mem _ he'

theorem dumpEntries_spec (data : Mem) (left i : Nat) :
    (dumpEntries data left i).2.Describes ((List.range' i left).map (entryAt data)) := by
  induction left generalizing i with
  | zero =>
      exact ⟨fun e he => absurd he List.not_mem_nil, fun e he => absurd he List.not_mem_nil⟩
  | succ left ih =>
      rw [List.range'_succ, List.map_cons, dumpEntries_succ]
      by_cases hend : (entryAt data i).isEnd = true
      · rw [if_pos hend]
        refine ⟨fun e he => ?_, entryAt data i, List.mem_cons_self, hend⟩
        rw [beforeEnd_end hend] at he
        exact absurd he List.not_mem_nil
      · rw [if_neg hend]
        by_cases hdel : (entryAt data i).isDeleted = true
        · rw [if_pos hdel]
          exact (ih (i + 1)).cons hend (Or.inl hdel)
        · rw [if_neg hdel]
          by_cases hlong : 50 ≤ (entryAt data i).size.toNat
          · rw [if_pos hlong]
            refine ⟨entryAt data i, ?_, not_or.mpr ⟨hdel, Nat.not_lt.mpr hlong⟩⟩
            rw [beforeEnd_cons hend]
            exact List.mem_cons_self
          · rw [if_neg hlong]
            exact (ih (i + 1)).cons hend (Or.inr (Nat.lt_of_not_le hlong))

/-! ### The listing as a walk -/

/-- The directory ends in this cluster. -/
def DirectoryEnd (drive : Drive) (ba : Mem) (partition : FATXPartition) (s : Int × Mem) : Prop :=
  s.1 = -1 ∨ ∃ e ∈ bufferEntries (loaded drive ba partition s), e.isEnd = true

/-- Every name in this cluster of the directory fits into the buffer. -/
def NamesFit (drive : Drive) (ba : Mem) (partition : FATXPartition) (s : Int × Mem) : Prop :=
  s.1 ≠ -1 → ∀ e ∈ beforeEnd (bufferEntries (loaded drive ba partition s)), e.Fits

/-- The state of the loop after so many clusters. -/
def walked (drive : Drive) (ba : Mem) (partition : FATXPartition) (s : Int × Mem) (n : Nat) : Int × Mem :=
  (clusterStep drive ba partition)^[n] s

/-- The result of one cluster. -/
def dumpCluster (drive : Drive) (ba : Mem) (partition : FATXPartition) (s : Int × Mem) : List DumpLine × DumpResult :=
  dumpEntries (loaded drive ba partition s) 256 0

theorem dumpFATXTree_succ (hp : partition.Opened) (ba : Mem) (rounds : Nat) {s : Int × Mem} (hid : ¬ s.1 = -1) :
    dumpFATXTree drive ba partition (rounds + 1) s.1 s.2 =
      match dumpCluster drive ba partition s with
      | (lines, .overrun) => (lines, .fault)
      | (lines, .endOfDirectory) => (lines, .returned)
      | (lines, .nextCluster) =>
          (lines ++ (dumpFATXTree drive ba partition rounds (clusterStep drive ba partition s).1
              (clusterStep drive ba partition s).2).1,
            (dumpFATXTree drive ba partition rounds (clusterStep drive ba partition s).1
              (clusterStep drive ba partition s).2).2) := by
  have hcount : partition.clusterSize / fatxDirectoryentrySize = 256 := by
    rw [hp.clusterSize]
    rfl
  rw [dumpFATXTree, if_neg hid, (loadFATXCluster_loaded hp ba s).1, hcount]
  rfl

theorem dumpCluster_spec (ba : Mem) (s : Int × Mem) :
    (dumpCluster drive ba partition s).2.Describes (bufferEntries (loaded drive ba partition s)) :=
  dumpEntries_spec _ 256 0

/-- `_DumpFATXTree` has returned when it has come to the end of the directory and every name fitted. -/
theorem dumpFATXTree_returned_iff (hp : partition.Opened) (ba : Mem) (rounds : Nat) (s : Int × Mem) :
    (dumpFATXTree drive ba partition rounds s.1 s.2).2 = .returned ↔
      ∃ n < rounds, Reached (clusterStep drive ba partition) (DirectoryEnd drive ba partition) s n ∧
        DirectoryEnd drive ba partition (walked drive ba partition s n) ∧
        ∀ m ≤ n, NamesFit drive ba partition (walked drive ba partition s m) := by
  induction rounds generalizing s with
  | zero =>
      constructor
      · intro h
        cases h
      · rintro ⟨n, hn, -⟩
        exact absurd hn (Nat.not_lt_zero n)
  | succ rounds ih =>
      by_cases hid : s.1 = -1
      · rw [dumpFATXTree, if_pos hid]
        refine ⟨fun _ => ⟨0, Nat.succ_pos rounds, Walk.reached_zero, Or.inl hid, fun m hm => ?_⟩, fun _ => rfl⟩
        obtain rfl : m = 0 := Nat.le_zero.mp hm
        exact fun hne => absurd hid hne
      · have hspec := @dumpCluster_spec drive partition ba s
        rw [dumpFATXTree_succ hp ba rounds hid]
        cases hcluster : dumpCluster drive ba partition s with
        | mk lines result =>
            rw [hcluster] at hspec
            cases result with
            | overrun =>
                refine ⟨fun h => (by cases h), ?_⟩
                rintro ⟨n, -, -, -, hfit⟩
                obtain ⟨e, he, hlong⟩ := hspec
                exact absurd (hfit 0 (Nat.zero_le n) hid e he) hlong
            | endOfDirectory =>
                refine ⟨fun _ => ⟨0, Nat.succ_pos rounds, Walk.reached_zero, Or.inr hspec.2, fun m hm => ?_⟩,
                  fun _ => rfl⟩
                obtain rfl : m = 0 := Nat.le_zero.mp hm
                exact fun _ => hspec.1
            | nextCluster =>
                have hgo : ¬ DirectoryEnd drive ba partition s := by
                  rintro (h | ⟨e, he, hend⟩)
                  · exact hid h
                  · exact hspec.2 e he hend
                dsimp only
                rw [ih]
                constructor
                · rintro ⟨n, hn, hreached, hend, hfit⟩
                  refine ⟨n + 1, Nat.succ_lt_succ hn, Walk.reached_succ_iff.mpr ⟨hgo, hreached⟩, hend, fun m hm => ?_⟩
                  cases m with
                  | zero => exact fun _ => hspec.1
                  | succ m => exact hfit m (Nat.le_of_succ_le_succ hm)
                · rintro ⟨n, hn, hreached, hend, hfit⟩
                  cases n with
                  | zero => exact absurd hend hgo
                  | succ n =>
                      exact ⟨n, Nat.lt_of_succ_lt_succ hn, (Walk.reached_succ_iff.mp hreached).2, hend,
                        fun m hm => hfit (m + 1) (Nat.succ_le_succ hm)⟩

/-- `_DumpFATXTree` returns exactly when no cluster comes up twice with the same contents and every name that comes
    up fits into the buffer. -/
theorem dumpFATXTree_returns_iff (hp : partition.Opened) (ba : Mem) (s : Int × Mem) :
    (∃ rounds, (dumpFATXTree drive ba partition rounds s.1 s.2).2 = .returned) ↔
      NoReturn (clusterStep drive ba partition) (DirectoryEnd drive ba partition) s ∧
        ∀ n, Reached (clusterStep drive ba partition) (DirectoryEnd drive ba partition) s n →
          NamesFit drive ba partition (walked drive ba partition s n) := by
  obtain ⟨S, hS, hmem⟩ := @clusterStates_finite drive partition hp ba s
  rw [← Walk.ends_iff_noReturn hS hmem]
  constructor
  · rintro ⟨rounds, h⟩
    obtain ⟨n, -, hreached, hend, hfit⟩ := (dumpFATXTree_returned_iff hp ba rounds s).mp h
    refine ⟨⟨n, hend⟩, fun m hm => hfit m ?_⟩
    by_contra hlt
    exact hm n (Nat.lt_of_not_le hlt) hend
  · rintro ⟨hends, hfit⟩
    obtain ⟨n, hreached, hend⟩ := hends.first
    exact ⟨n + 1, (dumpFATXTree_returned_iff hp ba _ s).mpr
      ⟨n, Nat.lt_succ_self n, hreached, hend, fun m hm => hfit m (hreached.of_le hm)⟩⟩

/-! ### The search beside it -/

/-- The loop of `_FATXFindFile` over the entries of a cluster, with the entries that it compares. -/
def scanConsidered (seekFilename : List UInt8) (clusterData : Mem) : Nat → Nat → List EntryInfo × ScanResult
  | 0, _ => ([], .nextCluster)
  | left + 1, i =>
      let curEntry : Mem := fun k => clusterData (i * fatxDirectoryentrySize + k)
      if checkForLastDirectoryEntry curEntry then ([], .endOfDirectory)
      else
        let filenameSize := (curEntry 0).toNat
        if filenameSize = 0xE5 then scanConsidered seekFilename clusterData left (i + 1)
        else if filenameSize < 1 ∨ filenameSize > fatxFilenameMax then ([], .invalidSize)
        else
          let info := entryInfo curEntry
          if seekFilename.length = info.filename.length ∧
              strncmp info.filename seekFilename seekFilename.length = 0 then
            ([info], .found info.flags info.entryClusterId info.fileSize)
          else
            let (infos, result) := scanConsidered seekFilename clusterData left (i + 1)
            (info :: infos, result)

/-- The loop of `_FATXFindFile` over the clusters, with the entries that it compares. -/
def searchConsidered (drive : Drive) (ba : Mem) (partition : FATXPartition) (seekFilename : List UInt8) :
    Nat → Int → Mem → List EntryInfo × Option ScanResult
  | 0, _, _ => ([], none)
  | rounds + 1, clusterId, clusterData =>
      if clusterId = -1 then ([], some .endOfDirectory)
      else
        match loadFATXCluster drive ba partition clusterId clusterData with
        | none => ([], none)
        | some clusterData =>
            match scanConsidered seekFilename clusterData (partition.clusterSize / fatxDirectoryentrySize) 0 with
            | (infos, .nextCluster) =>
                let (rest, result) :=
                  searchConsidered drive ba partition seekFilename rounds (getNextClusterInChain partition clusterId)
                    clusterData
                (infos ++ rest, result)
            | (infos, result) => (infos, some result)

theorem scanConsidered_succ (name : List UInt8) (data : Mem) (left i : Nat) :
    scanConsidered name data (left + 1) i =
      if (entryAt data i).isEnd then ([], .endOfDirectory)
      else if (entryAt data i).isDeleted then scanConsidered name data left (i + 1)
      else if (entryAt data i).isInvalid then ([], .invalidSize)
      else if (entryAt data i).name = name then
        ([entryInfo (rawEntry data i)], .found (rawEntry data i 1) ((rawEntry data i).loadWord 0x2c)
          ((rawEntry data i).loadWord 0x30))
      else
        (entryInfo (rawEntry data i) :: (scanConsidered name data left (i + 1)).1,
          (scanConsidered name data left (i + 1)).2) := by
  rw [scanConsidered]
  dsimp only
  rw [checkForLastDirectoryEntry_eq]
  by_cases hend : (entryAt data i).isEnd = true
  · rw [if_pos hend, if_pos hend]
  · rw [if_neg hend, if_neg hend]
    by_cases hdel : (entryAt data i).isDeleted = true
    · rw [if_pos ((isDeleted_iff data i).mp hdel), if_pos hdel]
    · rw [if_neg fun h => hdel ((isDeleted_iff data i).mpr h), if_neg hdel]
      by_cases hinvalid : (entryAt data i).isInvalid = true
      · rw [if_pos ((isInvalid_iff hend).mp hinvalid), if_pos hinvalid]
      · have hname : (entryInfo fun k => data (i * fatxDirectoryentrySize + k)).filename = (entryAt data i).name :=
          (entryAt_name hinvalid).symm
        rw [if_neg fun h => hinvalid ((isInvalid_iff hend).mpr h), if_neg hinvalid, hname]
        exact if_congr (matches_iff hinvalid name) rfl rfl

/-- It is the search: the entries are recorded beside it. -/
theorem scanConsidered_result (name : List UInt8) (data : Mem) (left i : Nat) :
    (scanConsidered name data left i).2 = scanEntries name data left i := by
  induction left generalizing i with
  | zero => rfl
  | succ left ih =>
      rw [scanConsidered_succ, scanEntries_succ, ← ih (i + 1)]
      split
      case isTrue => rfl
      case isFalse =>
        split
        case isTrue => rfl
        case isFalse =>
          split
          case isTrue => rfl
          case isFalse =>
            split
            case isTrue => rfl
            case isFalse => rfl

/-- The search copies no more than 42 bytes of a name. -/
theorem scanConsidered_fits (name : List UInt8) (data : Mem) (left i : Nat) :
    ∀ info ∈ (scanConsidered name data left i).1, info.filenameSize ≤ fatxFilenameMax := by
  induction left generalizing i with
  | zero => exact List.forall_mem_nil _
  | succ left ih =>
      rw [scanConsidered_succ]
      split
      case isTrue => exact List.forall_mem_nil _
      case isFalse =>
        split
        case isTrue => exact ih (i + 1)
        case isFalse =>
          split
          case isTrue => exact List.forall_mem_nil _
          case isFalse hinvalid =>
            have hsize : (entryInfo (rawEntry data i)).filenameSize ≤ fatxFilenameMax :=
              Nat.le_of_not_lt fun hlt => hinvalid (decide_eq_true hlt)
            split
            case isTrue => exact List.forall_mem_singleton.mpr hsize
            case isFalse => exact List.forall_mem_cons.mpr ⟨hsize, ih (i + 1)⟩

theorem searchConsidered_fits (drive : Drive) (ba : Mem) (partition : FATXPartition) (name : List UInt8)
    (rounds : Nat) (clusterId : Int) (clusterData : Mem) :
    ∀ info ∈ (searchConsidered drive ba partition name rounds clusterId clusterData).1,
      info.filenameSize ≤ fatxFilenameMax := by
  induction rounds generalizing clusterId clusterData with
  | zero => exact List.forall_mem_nil _
  | succ rounds ih =>
      rw [searchConsidered]
      split
      case isTrue => exact List.forall_mem_nil _
      case isFalse =>
        cases loadFATXCluster drive ba partition clusterId clusterData with
        | none => exact List.forall_mem_nil _
        | some data =>
            have hfits := scanConsidered_fits name data (partition.clusterSize / fatxDirectoryentrySize) 0
            dsimp only
            cases hscan : scanConsidered name data (partition.clusterSize / fatxDirectoryentrySize) 0 with
            | mk infos result =>
                rw [hscan] at hfits
                cases result with
                | nextCluster => exact List.forall_mem_append.mpr ⟨hfits, ih _ _⟩
                | endOfDirectory | invalidSize | found => exact hfits

theorem searchConsidered_result (drive : Drive) (ba : Mem) (partition : FATXPartition) (name : List UInt8)
    (rounds : Nat) (clusterId : Int) (clusterData : Mem) :
    (searchConsidered drive ba partition name rounds clusterId clusterData).2 =
      searchClusters drive ba partition name rounds clusterId clusterData := by
  induction rounds generalizing clusterId clusterData with
  | zero => rfl
  | succ rounds ih =>
      rw [searchConsidered, searchClusters]
      split
      case isTrue => rfl
      case isFalse =>
        cases loadFATXCluster drive ba partition clusterId clusterData with
        | none => rfl
        | some data =>
            have hresult := scanConsidered_result name data (partition.clusterSize / fatxDirectoryentrySize) 0
            simp only [Option.bind_eq_bind, Option.bind_some, ← hresult]
            cases scanConsidered name data (partition.clusterSize / fatxDirectoryentrySize) 0 with
            | mk infos result =>
                cases result with
                | nextCluster => exact ih _ _
                | endOfDirectory | invalidSize | found => rfl

/-! ### Where they agree -/

/-- A line for an entry with this name. -/
def DumpLine.hasName (name : List UInt8) : DumpLine → Bool
  | .invalidFilenameSize _ => false
  | .entry filename _ _ _ => filename == name

/-- The lines up to the first entry with the name. -/
def cutAt (name : List UInt8) : List DumpLine → List DumpLine
  | [] => []
  | line :: rest => if line.hasName name then [line] else line :: cutAt name rest

/-- Both walkers read the directory from a cluster on the same way, after any number of clusters: neither copies a
    name that is too long, the lines of the listing are the entries that the search for any name compares up to the one
    that it finds, and a search that finds nothing stops where the listing does. -/
structure SameReading (drive : Drive) (ba : Mem) (partition : FATXPartition) (s : Int × Mem) : Prop where
  fits : ∀ rounds, (dumpFATXTree drive ba partition rounds s.1 s.2).2 ≠ .fault
  copies : ∀ name rounds, ∀ info ∈ (searchConsidered drive ba partition name rounds s.1 s.2).1,
    info.filenameSize ≤ fatxFilenameMax
  lists : ∀ name rounds, (searchConsidered drive ba partition name rounds s.1 s.2).1.map EntryInfo.line =
    cutAt name (dumpFATXTree drive ba partition rounds s.1 s.2).1
  stops : ∀ name rounds,
    (∀ flags entryClusterId fileSize,
      searchClusters drive ba partition name rounds s.1 s.2 ≠ some (.found flags entryClusterId fileSize)) →
    searchClusters drive ba partition name rounds s.1 s.2 = none ∧
        (dumpFATXTree drive ba partition rounds s.1 s.2).2 = .running ∨
      searchClusters drive ba partition name rounds s.1 s.2 = some .endOfDirectory ∧
        (dumpFATXTree drive ba partition rounds s.1 s.2).2 = .returned

theorem cutAt_of_absent {name : List UInt8} {l : List DumpLine} (h : ∀ line ∈ l, ¬ line.hasName name = true)
    (rest : List DumpLine) : cutAt name (l ++ rest) = l ++ cutAt name rest := by
  induction l with
  | nil => rfl
  | cons line l ih =>
      rw [List.cons_append, cutAt, if_neg (h line List.mem_cons_self),
        ih fun line' hline' => h line' (List.mem_cons_of_mem _ hline')]
      rfl

/-- How the two loops over the entries of a cluster compare. -/
def SameEntries (name : List UInt8) (considered : List EntryInfo × ScanResult) (listed : List DumpLine × DumpResult) :
    Prop :=
  match considered.2 with
  | .nextCluster => listed.2 = .nextCluster ∧ considered.1.map EntryInfo.line = listed.1 ∧
      ∀ line ∈ listed.1, ¬ line.hasName name = true
  | .endOfDirectory => listed.2 = .endOfDirectory ∧ considered.1.map EntryInfo.line = listed.1 ∧
      ∀ line ∈ listed.1, ¬ line.hasName name = true
  | .invalidSize => False
  | .found _ _ _ => ∀ rest, considered.1.map EntryInfo.line = cutAt name (listed.1 ++ rest)

/-- An entry with another name is compared and listed. -/
theorem SameEntries.cons {name : List UInt8} {considered : List EntryInfo × ScanResult}
    {listed : List DumpLine × DumpResult} (h : SameEntries name considered listed) {info : EntryInfo}
    (hname : ¬ info.line.hasName name = true) :
    SameEntries name (info :: considered.1, considered.2) (info.line :: listed.1, listed.2) := by
  have habsent : (∀ line ∈ listed.1, ¬ line.hasName name = true) →
      ∀ line ∈ info.line :: listed.1, ¬ line.hasName name = true := by
    intro hall line hline
    rcases List.mem_cons.mp hline with rfl | hmem
    · exact hname
    · exact hall line hmem
  obtain ⟨infos, result⟩ := considered
  cases result with
  | nextCluster | endOfDirectory =>
      obtain ⟨hresult, hlines, hall⟩ := h
      exact ⟨hresult, congrArg (info.line :: ·) hlines, habsent hall⟩
  | invalidSize =>
      exact h
  | found flags entryClusterId fileSize =>
      intro rest
      rw [List.cons_append, cutAt, if_neg hname]
      exact congrArg (info.line :: ·) (h rest)

/-- The size of every entry in front of the end of the directory is that of a name. -/
def SizesValid (l : List DirectoryEntry) : Prop := ∀ e ∈ beforeEnd l, e.isDeleted = true ∨ ¬ e.isInvalid = true

theorem SizesValid.tail {e : DirectoryEntry} {l : List DirectoryEntry} (hend : ¬ e.isEnd = true)
    (h : SizesValid (e :: l)) : (e.isDeleted = true ∨ ¬ e.isInvalid = true) ∧ SizesValid l := by
  rw [SizesValid, beforeEnd_cons hend] at h
  exact ⟨h e List.mem_cons_self, fun e' he' => h e' (List.mem_cons_of_mem _ he')⟩

/-- A valid size leaves room in the buffer. -/
theorem not_long_of_valid {e : DirectoryEntry} (h : ¬ e.isInvalid = true) : e.size.toNat < 50 := by
  have hle : e.size.toNat ≤ 42 := Nat.le_of_not_lt fun hlt => h (decide_eq_true hlt)
  omega

theorem hasName_line_iff (name : List UInt8) (info : EntryInfo) :
    info.line.hasName name = true ↔ info.filename = name := beq_iff_eq

theorem sameEntries (name : List UInt8) (data : Mem) (left i : Nat)
    (h : SizesValid ((List.range' i left).map (entryAt data))) :
    SameEntries name (scanConsidered name data left i) (dumpEntries data left i) := by
  induction left generalizing i with
  | zero =>
      exact ⟨rfl, rfl, fun line hline => absurd hline List.not_mem_nil⟩
  | succ left ih =>
      rw [List.range'_succ, List.map_cons] at h
      rw [scanConsidered_succ, dumpEntries_succ]
      by_cases hend : (entryAt data i).isEnd = true
      · rw [if_pos hend, if_pos hend]
        exact ⟨rfl, rfl, fun line hline => absurd hline List.not_mem_nil⟩
      · obtain ⟨hvalid, hrest⟩ := h.tail hend
        rw [if_neg hend, if_neg hend]
        by_cases hdel : (entryAt data i).isDeleted = true
        · rw [if_pos hdel, if_pos hdel]
          exact ih (i + 1) hrest
        · have hinvalid := hvalid.resolve_left hdel
          have hreport : sizeReport (entryAt data i) = [] := if_neg hinvalid
          have hfilename : (entryInfo (rawEntry data i)).filename = (entryAt data i).name :=
            (entryAt_name hinvalid).symm
          rw [if_neg hdel, if_neg hdel, if_neg hinvalid, if_neg (Nat.not_le.mpr (not_long_of_valid hinvalid)), hreport,
            List.nil_append]
          by_cases hname : (entryAt data i).name = name
          · rw [if_pos hname]
            intro rest
            rw [List.cons_append, cutAt, if_pos ((hasName_line_iff _ _).mpr (hfilename.trans hname))]
            rfl
          · rw [if_neg hname]
            exact (ih (i + 1) hrest).cons fun hline => hname (hfilename.symm.trans ((hasName_line_iff _ _).mp hline))

/-- An entry with a size that no name has ends the search for a name that none of the entries has. -/
theorem scanEntries_invalid {name : List UInt8} {data : Mem} (hname : ∀ i, (entryAt data i).name ≠ name)
    (left i : Nat) (h : ¬ SizesValid ((List.range' i left).map (entryAt data))) :
    scanEntries name data left i = .invalidSize := by
  induction left generalizing i with
  | zero =>
      exact absurd (fun e he => absurd he List.not_mem_nil) h
  | succ left ih =>
      rw [List.range'_succ, List.map_cons] at h
      rw [scanEntries_succ]
      by_cases hend : (entryAt data i).isEnd = true
      · refine absurd (fun e he => ?_) h
        rw [beforeEnd_end hend] at he
        exact absurd he List.not_mem_nil
      · rw [if_neg hend]
        have hrest : (entryAt data i).isDeleted = true ∨ ¬ (entryAt data i).isInvalid = true →
            ¬ SizesValid ((List.range' (i + 1) left).map (entryAt data)) := by
          intro hvalid hall
          apply h
          rw [SizesValid, beforeEnd_cons hend]
          intro e he
          rcases List.mem_cons.mp he with rfl | hmem
          · exact hvalid
          · exact hall e hmem
        by_cases hdel : (entryAt data i).isDeleted = true
        · rw [if_pos hdel]
          exact ih (i + 1) (hrest (Or.inl hdel))
        · rw [if_neg hdel]
          by_cases hinvalid : (entryAt data i).isInvalid = true
          · rw [if_pos hinvalid]
          · rw [if_neg hinvalid, if_neg (hname i)]
            exact ih (i + 1) (hrest (Or.inr hinvalid))

/-- The sizes in a cluster of the directory are those of names. -/
def ClusterValid (drive : Drive) (ba : Mem) (partition : FATXPartition) (s : Int × Mem) : Prop :=
  s.1 ≠ -1 → SizesValid (bufferEntries (loaded drive ba partition s))

/-- Every cluster that the walkers get to before the directory ends is so. -/
def DirectoryValid (drive : Drive) (ba : Mem) (partition : FATXPartition) (s : Int × Mem) : Prop :=
  ∀ n, Reached (clusterStep drive ba partition) (DirectoryEnd drive ba partition) s n →
    ClusterValid drive ba partition (walked drive ba partition s n)

theorem ClusterValid.namesFit {ba : Mem} {s : Int × Mem} (h : ClusterValid drive ba partition s) :
    NamesFit drive ba partition s :=
  fun hid e he => (h hid e he).imp_right not_long_of_valid

theorem DirectoryValid.next {ba : Mem} {s : Int × Mem} (h : DirectoryValid drive ba partition s)
    (hgo : ¬ DirectoryEnd drive ba partition s) : DirectoryValid drive ba partition (clusterStep drive ba partition s) :=
  fun n hn => h (n + 1) (Walk.reached_succ_iff.mpr ⟨hgo, hn⟩)

theorem not_end_of_nextCluster {ba : Mem} {s : Int × Mem} (hid : ¬ s.1 = -1) {lines : List DumpLine}
    (h : dumpCluster drive ba partition s = (lines, .nextCluster)) : ¬ DirectoryEnd drive ba partition s := by
  have hspec := @dumpCluster_spec drive partition ba s
  rw [h] at hspec
  rintro (hend | ⟨e, he, hend⟩)
  · exact hid hend
  · exact hspec.2 e he hend

/-- In a valid directory no name is too long for the buffer. -/
theorem dumpFATXTree_no_fault (hp : partition.Opened) (ba : Mem) (rounds : Nat) {s : Int × Mem}
    (h : DirectoryValid drive ba partition s) : (dumpFATXTree drive ba partition rounds s.1 s.2).2 ≠ .fault := by
  induction rounds generalizing s with
  | zero =>
      intro hfault
      cases hfault
  | succ rounds ih =>
      by_cases hid : s.1 = -1
      · rw [dumpFATXTree, if_pos hid]
        intro hfault
        cases hfault
      · have hspec := @dumpCluster_spec drive partition ba s
        rw [dumpFATXTree_succ hp ba rounds hid]
        cases hcluster : dumpCluster drive ba partition s with
        | mk lines result =>
            rw [hcluster] at hspec
            cases result with
            | overrun =>
                obtain ⟨e, he, hlong⟩ := hspec
                exact absurd ((h 0 Walk.reached_zero).namesFit hid e he) hlong
            | endOfDirectory =>
                intro hfault
                cases hfault
            | nextCluster =>
                exact ih (h.next (not_end_of_nextCluster hid hcluster))

theorem searchConsidered_succ (hp : partition.Opened) (ba : Mem) (name : List UInt8) (rounds : Nat) {s : Int × Mem}
    (hid : ¬ s.1 = -1) :
    searchConsidered drive ba partition name (rounds + 1) s.1 s.2 =
      match scanConsidered name (loaded drive ba partition s) 256 0 with
      | (infos, .nextCluster) =>
          (infos ++ (searchConsidered drive ba partition name rounds (clusterStep drive ba partition s).1
              (clusterStep drive ba partition s).2).1,
            (searchConsidered drive ba partition name rounds (clusterStep drive ba partition s).1
              (clusterStep drive ba partition s).2).2)
      | (infos, result) => (infos, some result) := by
  have hcount : partition.clusterSize / fatxDirectoryentrySize = 256 := by
    rw [hp.clusterSize]
    rfl
  rw [searchConsidered, if_neg hid, (loadFATXCluster_loaded hp ba s).1, hcount]
  rfl

/-- How the two walkers compare after the same number of clusters. -/
def SameSoFar (name : List UInt8) (considered : List EntryInfo × Option ScanResult) (listed : List DumpLine × DumpEnd) :
    Prop :=
  match considered.2 with
  | none => listed.2 = .running ∧ considered.1.map EntryInfo.line = listed.1 ∧
      ∀ line ∈ listed.1, ¬ line.hasName name = true
  | some .endOfDirectory => listed.2 = .returned ∧ considered.1.map EntryInfo.line = listed.1 ∧
      ∀ line ∈ listed.1, ¬ line.hasName name = true
  | some (.found _ _ _) => considered.1.map EntryInfo.line = cutAt name listed.1
  | some _ => False

/-- A cluster without the name in front of what follows. -/
theorem SameSoFar.append {name : List UInt8} {considered : List EntryInfo × Option ScanResult}
    {listed : List DumpLine × DumpEnd} (h : SameSoFar name considered listed) {infos : List EntryInfo}
    {lines : List DumpLine} (hlines : infos.map EntryInfo.line = lines)
    (habsent : ∀ line ∈ lines, ¬ line.hasName name = true) :
    SameSoFar name (infos ++ considered.1, considered.2) (lines ++ listed.1, listed.2) := by
  have hall : (∀ line ∈ listed.1, ¬ line.hasName name = true) →
      ∀ line ∈ lines ++ listed.1, ¬ line.hasName name = true := by
    intro hlisted line hline
    rcases List.mem_append.mp hline with hmem | hmem
    · exact habsent line hmem
    · exact hlisted line hmem
  obtain ⟨others, result⟩ := considered
  have hmap : ∀ l, others.map EntryInfo.line = l → (infos ++ others).map EntryInfo.line = lines ++ l := by
    intro l hl
    rw [List.map_append, hlines, hl]
  cases result with
  | none =>
      exact ⟨h.1, hmap _ h.2.1, hall h.2.2⟩
  | some result =>
      cases result with
      | endOfDirectory =>
          exact ⟨h.1, hmap _ h.2.1, hall h.2.2⟩
      | found =>
          exact (hmap _ h).trans (cutAt_of_absent habsent _).symm
      | nextCluster | invalidSize =>
          exact h

theorem sameSoFar (hp : partition.Opened) (ba : Mem) (name : List UInt8) (rounds : Nat) {s : Int × Mem}
    (h : DirectoryValid drive ba partition s) :
    SameSoFar name (searchConsidered drive ba partition name rounds s.1 s.2)
      (dumpFATXTree drive ba partition rounds s.1 s.2) := by
  induction rounds generalizing s with
  | zero =>
      exact ⟨rfl, rfl, fun line hline => absurd hline List.not_mem_nil⟩
  | succ rounds ih =>
      by_cases hid : s.1 = -1
      · rw [searchConsidered, dumpFATXTree, if_pos hid, if_pos hid]
        exact ⟨rfl, rfl, fun line hline => absurd hline List.not_mem_nil⟩
      · have hsame := sameEntries name (loaded drive ba partition s) 256 0 (h 0 Walk.reached_zero hid)
        have hcluster : dumpEntries (loaded drive ba partition s) 256 0 = dumpCluster drive ba partition s := rfl
        rw [searchConsidered_succ hp ba name rounds hid, dumpFATXTree_succ hp ba rounds hid]
        rw [hcluster] at hsame
        cases hscan : scanConsidered name (loaded drive ba partition s) 256 0 with
        | mk infos result =>
            cases hdump : dumpCluster drive ba partition s with
            | mk lines result' =>
                rw [hscan, hdump] at hsame
                cases result with
                | nextCluster =>
                    obtain ⟨hresult, hlines, habsent⟩ := hsame
                    dsimp only at hresult
                    subst hresult
                    exact (ih (h.next (not_end_of_nextCluster hid hdump))).append hlines habsent
                | endOfDirectory =>
                    obtain ⟨hresult, hlines, habsent⟩ := hsame
                    dsimp only at hresult
                    subst hresult
                    exact ⟨rfl, hlines, habsent⟩
                | invalidSize =>
                    exact hsame.elim
                | found =>
                    have hempty := hsame []
                    rw [List.append_nil] at hempty
                    cases result' with
                    | overrun => exact hempty
                    | endOfDirectory => exact hempty
                    | nextCluster => exact hsame _

/-- A name that no entry has, as it is too long. -/
def longName : List UInt8 := List.replicate 43 1

theorem entryAt_ne_longName (data : Mem) (i : Nat) : (entryAt data i).name ≠ longName := by
  intro h
  have hlen : (entryAt data i).name.length ≤ 42 := by
    rw [entryAt]
    dsimp only
    rw [cString]
    refine (List.takeWhile_sublist _).length_le.trans ?_
    rw [Mem.bytesFrom_length]
    exact Nat.min_le_right _ _
  rw [h, longName, List.length_replicate] at hlen
  exact absurd hlen (by decide)

theorem directoryValid_of_sameReading (hp : partition.Opened) {ba : Mem} {s : Int × Mem}
    (h : SameReading drive ba partition s) : DirectoryValid drive ba partition s := by
  intro n
  induction n using Nat.strong_induction_on with
  | _ n ih =>
    intro hreached hid
    by_contra hinvalid
    -- The search for the long name has passed the clusters before, and ends with the invalid size.
    have hloop := @searchClusters_isLoop drive partition hp ba longName
    have hinside : ((clusterStep drive ba partition)^[n] s).1 ≠ -1 := hid
    have hscan : scanEntries longName (loaded drive ba partition ((clusterStep drive ba partition)^[n] s)) 256 0 =
        .invalidSize := scanEntries_invalid (entryAt_ne_longName _) 256 0 hinvalid
    have hresult : searchClusters drive ba partition longName (n + 1) s.1 s.2 = some .invalidSize := by
      refine hloop.eq_some_iff.mpr ⟨n, Nat.lt_succ_self n, fun m hm hstop => ?_, Or.inr ?_, ?_⟩
      · rcases hstop with hend | ⟨e, he, hend | ⟨hdel, hbad | hname⟩⟩
        · exact hreached m hm (Or.inl hend)
        · exact hreached m hm (Or.inr ⟨e, he, hend⟩)
        · have hgo := hreached m hm
          have hmem : e ∈ beforeEnd (bufferEntries
              (loaded drive ba partition ((clusterStep drive ba partition)^[m] s))) := by
            rw [beforeEnd, List.takeWhile_eq_self_iff.mpr fun e' he' => ?_]
            · exact he
            · rw [Bool.not_eq_true', Bool.eq_false_iff]
              exact fun hend => hgo (Or.inr ⟨e', he', hend⟩)
          have hvalid := ih m hm (hreached.of_le (Nat.le_of_lt hm)) (fun hend => hgo (Or.inl hend)) e hmem
          rw [hdel] at hvalid
          exact hvalid.elim (fun hfalse => by cases hfalse) fun hnot => hnot hbad
        · obtain ⟨i, -, rfl⟩ := List.mem_map.mp he
          exact entryAt_ne_longName _ i hname
      · by_contra hgo
        push Not at hgo
        have hnext := (scanEntries_nextCluster_iff longName _).mpr hgo
        rw [hscan] at hnext
        cases hnext
      · rw [searchOut, if_neg hinside]
        exact hscan
    rcases h.stops longName (n + 1) (fun _ _ _ hfound => by rw [hresult] at hfound; cases hfound) with
      ⟨hnone, -⟩ | ⟨hend, -⟩
    · rw [hresult] at hnone
      cases hnone
    · rw [hresult] at hend
      cases hend

theorem sameReading_of_valid (hp : partition.Opened) {ba : Mem} {s : Int × Mem}
    (h : DirectoryValid drive ba partition s) : SameReading drive ba partition s := by
  refine ⟨fun rounds => dumpFATXTree_no_fault hp ba rounds h,
    fun name rounds => searchConsidered_fits drive ba partition name rounds s.1 s.2,
    fun name rounds => ?_, fun name rounds hfound => ?_⟩
  · have hsame := sameSoFar hp ba name rounds h
    have hwhole := @cutAt_of_absent name (dumpFATXTree drive ba partition rounds s.1 s.2).1
    cases hsearch : searchConsidered drive ba partition name rounds s.1 s.2 with
    | mk infos result =>
        rw [hsearch] at hsame
        cases result with
        | none =>
            have hcut := hwhole hsame.2.2 []
            rw [List.append_nil, cutAt, List.append_nil] at hcut
            exact hsame.2.1.trans hcut.symm
        | some result =>
            cases result with
            | endOfDirectory =>
                have hcut := hwhole hsame.2.2 []
                rw [List.append_nil, cutAt, List.append_nil] at hcut
                exact hsame.2.1.trans hcut.symm
            | found => exact hsame
            | nextCluster | invalidSize => exact hsame.elim
  · have hsame := sameSoFar hp ba name rounds h
    rw [SameSoFar, searchConsidered_result] at hsame
    cases hsearch : searchClusters drive ba partition name rounds s.1 s.2 with
    | none =>
        rw [hsearch] at hsame
        exact Or.inl ⟨rfl, hsame.1⟩
    | some result =>
        rw [hsearch] at hsame hfound
        cases result with
        | endOfDirectory => exact Or.inr ⟨rfl, hsame.1⟩
        | found flags entryClusterId fileSize => exact absurd rfl (hfound flags entryClusterId fileSize)
        | nextCluster | invalidSize => exact hsame.elim

/-- Both walkers read the directory the same way exactly when no entry in it has a size that no name has. -/
theorem same_reading_iff (hp : partition.Opened) (ba : Mem) (s : Int × Mem) :
    SameReading drive ba partition s ↔ DirectoryValid drive ba partition s :=
  ⟨directoryValid_of_sameReading hp, sameReading_of_valid hp⟩

/-- The root directory: the file and the end. -/
theorem filePartition_root (ba data : Mem) :
    ∃ rest, bufferEntries (loaded (headerDrive fileSectors) ba filePartition (1, data)) =
      ⟨1, 0, [0x41], 2, 0x5000⟩ :: ⟨0xff, 0, [], 0, 0⟩ :: rest := by
  have hroot : InRange (headerDrive fileSectors) filePartition 1 :=
    ⟨by decide, show (1 : Int) < (4 : Nat) by decide, fun _ _ => rfl⟩
  rw [bufferEntries_loaded filePartition_opened ba hroot, clusterEntries, List.range_eq_range', List.range'_succ,
    List.range'_succ, List.map_cons, List.map_cons]
  have hfile : entryAt (clusterByte (headerDrive fileSectors) filePartition 1) 0 = ⟨1, 0, [0x41], 2, 0x5000⟩ := by
    decide +kernel
  have hend : entryAt (clusterByte (headerDrive fileSectors) filePartition 1) (0 + 1) =
      ⟨0xff, 0, [], 0, 0⟩ := by
    decide +kernel
  rw [hfile, hend]
  exact ⟨_, rfl⟩

theorem file_search_stops : SearchStop (headerDrive fileSectors) (fun _ => 0) filePartition (seekName [0x41])
    (fatxRootFatCluster, fun _ => 0) := by
  obtain ⟨rest, hroot⟩ := filePartition_root (fun _ => 0) fun _ => 0
  refine Or.inr ⟨⟨1, 0, [0x41], 2, 0x5000⟩, ?_, Or.inr ⟨rfl, Or.inr rfl⟩⟩
  rw [fatxRootFatCluster, hroot]
  exact List.mem_cons_self

theorem file_directory_ends : DirectoryEnd (headerDrive fileSectors) (fun _ => 0) filePartition
    (fatxRootFatCluster, fun _ => 0) := by
  obtain ⟨rest, hroot⟩ := filePartition_root (fun _ => 0) fun _ => 0
  refine Or.inr ⟨⟨0xff, 0, [], 0, 0⟩, ?_, rfl⟩
  rw [fatxRootFatCluster, hroot]
  exact List.mem_cons_of_mem _ List.mem_cons_self

theorem file_directory_valid : DirectoryValid (headerDrive fileSectors) (fun _ => 0) filePartition
    (fatxRootFatCluster, fun _ => 0) := by
  obtain ⟨rest, hroot⟩ := filePartition_root (fun _ => 0) fun _ => 0
  intro n hn
  cases n with
  | zero =>
      intro _ e he
      rw [walked, Function.iterate_zero, id, fatxRootFatCluster, hroot, beforeEnd_cons (by decide),
        beforeEnd_end rfl] at he
      obtain rfl := List.mem_singleton.mp he
      exact Or.inr (by decide)
  | succ n => exact absurd file_directory_ends (hn 0 (Nat.succ_pos n))

/-- The directory of the file is read the same way. -/
theorem same_reading_iff_small :
    SameReading (headerDrive fileSectors) (fun _ => 0) filePartition (fatxRootFatCluster, fun _ => 0) :=
  (same_reading_iff filePartition_opened (fun _ => 0) (fatxRootFatCluster, fun _ => 0)).mpr file_directory_valid

/-- The directory begins with an entry whose length byte is 200. -/
theorem long_size_overruns :
    openFATXPartition (headerDrive fun _ _ => 0xC8) (fun _ => 0) (fun _ => 0) (some fun _ => 0) 0 0x10000 =
        some (smallPartition (headerDrive fun _ _ => 0xC8)) ∧
      ¬ SameReading (headerDrive fun _ _ => 0xC8) (fun _ => 0) (smallPartition (headerDrive fun _ _ => 0xC8))
        (fatxRootFatCluster, fun _ => 0) := by
  refine ⟨openFATXPartition_headerDrive _, fun h => ?_⟩
  have hvalid := directoryValid_of_sameReading (smallPartition_opened _) h 0 Walk.reached_zero (by decide)
  have hroot : InRange (headerDrive fun _ _ => 0xC8) (smallPartition (headerDrive fun _ _ => 0xC8)) 1 :=
    ⟨by decide, show (1 : Int) < (4 : Nat) by decide, fun _ _ => rfl⟩
  have hentries := bufferEntries_loaded (smallPartition_opened _) (fun _ => 0) hroot fun _ => 0
  have hfirst : (entryAt (clusterByte (headerDrive fun _ _ => 0xC8)
      (smallPartition (headerDrive fun _ _ => 0xC8)) 1) 0).size = 0xC8 := rfl
  rw [walked, Function.iterate_zero, id, fatxRootFatCluster, hentries, clusterEntries, List.range_eq_range',
    List.range'_succ, List.map_cons] at hvalid
  have hgo := (hvalid.tail (by rw [DirectoryEntry.isEnd, hfirst]; decide)).1
  rw [DirectoryEntry.isDeleted, DirectoryEntry.isInvalid, hfirst] at hgo
  exact absurd hgo (by decide)

end Cromwell.Fatx
