/-
Module: Cromwell.Fatx.DamagedDisk
Layer: Proofs
Purpose: What the FATX walkers do on every disk. Whether they return, and whether the cluster ids that they pass on
  are ids of clusters, is a matter of the entries that they follow; the driver only reports the others.
Imports: Cromwell.Fatx.Listing
Trusted boundary: IdValid, EntryValid
Main exports: fatx_walkers_return_iff, getNextClusterInChain_valid_iff, cluster_ids_valid_iff
-/
import Cromwell.Fatx.Listing

namespace Cromwell.Fatx

open ByteMemory
open Walk (Reached NoReturn)

variable {drive : Drive} {partition : FATXPartition}

/-! ### Returning -/

/-- The three walkers return, and look up nothing beside the chain table, exactly when every entry that they look up is
    one of the table and nothing comes up twice: no cluster of the chain of the file, and in no directory a cluster with
    the same contents of the buffer. The listing also has to fit its names into their buffer. -/
theorem fatx_walkers_return_iff (hp : partition.Opened) (ba clusterData memory : Mem) (stack : Nat → Mem)
    (fileinfo : FATXFILEINFO) (path : List UInt8) (clusterId : Int) :
    ((∃ rounds, (fatxLoadFromDisk drive ba clusterData partition rounds fileinfo memory).isSome) ↔
        NoReturn (getNextClusterInChain partition) (· = -1) fileinfo.clusterId ∧
          EntriesInside partition (getNextClusterInChain partition) (· = -1) (fun c => c) fileinfo.clusterId) ∧
      ((∃ rounds, (fatxFindFileIn drive ba stack partition rounds path clusterId fileinfo).isSome) ∧
          (∀ path' clusterId', Searched drive ba stack partition path clusterId path' clusterId' →
            (seekName path').length ≤ fatxFilenameMax →
              EntriesInside partition (clusterStep drive ba partition) (SearchStop drive ba partition (seekName path'))
                Prod.fst (clusterId', stack path'.length)) ↔
        ∀ path' clusterId', Searched drive ba stack partition path clusterId path' clusterId' →
          (seekName path').length ≤ fatxFilenameMax →
            NoReturn (clusterStep drive ba partition) (SearchStop drive ba partition (seekName path'))
                (clusterId', stack path'.length) ∧
              EntriesInside partition (clusterStep drive ba partition) (SearchStop drive ba partition (seekName path'))
                Prod.fst (clusterId', stack path'.length)) ∧
      ((∃ rounds, (dumpFATXTree drive ba partition rounds clusterId clusterData).2 = .returned) ∧
          EntriesInside partition (clusterStep drive ba partition) (DirectoryEnd drive ba partition) Prod.fst
            (clusterId, clusterData) ↔
        NoReturn (clusterStep drive ba partition) (DirectoryEnd drive ba partition) (clusterId, clusterData) ∧
          EntriesInside partition (clusterStep drive ba partition) (DirectoryEnd drive ba partition) Prod.fst
            (clusterId, clusterData) ∧
          ∀ n, Reached (clusterStep drive ba partition) (DirectoryEnd drive ba partition) (clusterId, clusterData) n →
            NamesFit drive ba partition (walked drive ba partition (clusterId, clusterData) n)) := by
  refine ⟨fatxLoadFromDisk_returns_iff hp ba clusterData memory fileinfo, ?_, ?_⟩
  · rw [fatxFindFileIn_returns_iff hp ba stack fileinfo path clusterId]
    constructor
    · rintro ⟨hreturns, hinside⟩ path' clusterId' hsearched hlen
      exact ⟨hreturns path' clusterId' hsearched hlen, hinside path' clusterId' hsearched hlen⟩
    · intro h
      exact ⟨fun path' clusterId' hsearched hlen => (h path' clusterId' hsearched hlen).1,
        fun path' clusterId' hsearched hlen => (h path' clusterId' hsearched hlen).2⟩
  · have hreturns := @dumpFATXTree_returns_iff drive partition hp ba (clusterId, clusterData)
    rw [hreturns, and_right_comm, and_assoc]

/-- The file is loaded, it is found, and the directory is listed. -/
theorem fatx_walkers_return_iff_small :
    (∃ rounds, (fatxLoadFromDisk (headerDrive fileSectors) (fun _ => 0) (fun _ => 0) filePartition rounds
        ⟨fun _ => 0, 2, 0x5000, 0, 0x900000⟩ fun _ => 0).isSome) ∧
      (∃ rounds, (fatxFindFileIn (headerDrive fileSectors) (fun _ => 0) (fun _ _ => 0) filePartition rounds [0x41]
        fatxRootFatCluster ⟨fun _ => 0, 2, 0x5000, 0, 0x900000⟩).isSome) ∧
      ∃ rounds, (dumpFATXTree (headerDrive fileSectors) (fun _ => 0) filePartition rounds fatxRootFatCluster
        fun _ => 0).2 = .returned := by
  have hwalkers := @fatx_walkers_return_iff (headerDrive fileSectors) filePartition filePartition_opened (fun _ => 0)
    (fun _ => 0) (fun _ => 0) (fun _ _ => 0) ⟨fun _ => 0, 2, 0x5000, 0, 0x900000⟩ [0x41] fatxRootFatCluster
  have hend : (getNextClusterInChain filePartition)^[2] 2 = -1 := by decide +kernel
  have hentries : ∀ m < 2, filePartition.HasEntry ((getNextClusterInChain filePartition)^[m] 2) := by decide +kernel
  refine ⟨hwalkers.1.mpr ⟨Walk.Ends.noReturn ⟨2, hend⟩, EntriesInside.of_stop hend hentries⟩,
    (hwalkers.2.1.mpr fun path' clusterId' hsearched hlen => ?_).1,
    (hwalkers.2.2.mpr ⟨Walk.Ends.noReturn ⟨0, file_directory_ends⟩, EntriesInside.of_first file_directory_ends,
      fun n hn => ?_⟩).1⟩
  · cases hsearched with
    | here => exact ⟨Walk.Ends.noReturn ⟨0, file_search_stops⟩, EntriesInside.of_first file_search_stops⟩
    | into hsep => cases hsep
  · cases n with
    | zero => exact (file_directory_valid 0 hn).namesFit
    | succ n => exact absurd file_directory_ends (hn 0 (Nat.succ_pos n))

/-- The sectors of a disk whose chain table leads from cluster 2 to cluster 2. -/
def loopSectors (sector k : Nat) : UInt8 := if sector = 8 ∧ k = 4 then 2 else 0

/-- A file that begins there is loaded for ever. -/
theorem load_of_loop_never_returns :
    openFATXPartition (headerDrive loopSectors) (fun _ => 0) (fun _ => 0) (some fun _ => 0) 0 0x10000 =
        some (smallPartition (headerDrive loopSectors)) ∧
      ¬ ∃ rounds, (fatxLoadFromDisk (headerDrive loopSectors) (fun _ => 0) (fun _ => 0)
        (smallPartition (headerDrive loopSectors)) rounds ⟨fun _ => 0, 2, 1, 0, 0⟩ fun _ => 0).isSome := by
  refine ⟨openFATXPartition_headerDrive _, fun h => ?_⟩
  have hwalk := ((fatxLoadFromDisk_returns_iff (smallPartition_opened _) _ _ _ _).mp h).1
  have hnext : getNextClusterInChain (smallPartition (headerDrive loopSectors)) 2 = 2 := by decide +kernel
  have hreached : Reached (getNextClusterInChain (smallPartition (headerDrive loopSectors))) (· = -1) 2 1 := by
    intro m hm
    obtain rfl : m = 0 := Nat.lt_one_iff.mp hm
    decide
  exact hwalk 0 1 Nat.one_pos hreached hnext.symm

/-! ### Cluster ids -/

/-- An id that ends a walk or is that of a cluster. -/
def IdValid (partition : FATXPartition) (clusterId : Int) : Prop := clusterId ≠ -1 → partition.InTable clusterId

/-- The entry of a cluster in the chain table is an end marker or the id of a cluster. -/
def EntryValid (partition : FATXPartition) (clusterId : Int) : Prop :=
  IsEndMarker partition (chainEntry partition clusterId) ∨ partition.InTable (int32 (chainEntry partition clusterId))

theorem word_lt (partition : FATXPartition) (i : Int) : partition.word i < 65536 := by
  have hlow := (partition.clusterChainMap (2 * i)).toNat_lt
  have hhigh := (partition.clusterChainMap (2 * i + 1)).toNat_lt
  rw [FATXPartition.word]
  omega

/-- An entry that is read as `-1` is an end marker. -/
theorem isEndMarker_of_int32 (hp : partition.Opened) {clusterId : Int}
    (h : int32 (chainEntry partition clusterId) = -1) : IsEndMarker partition (chainEntry partition clusterId) := by
  have hword := word_lt partition
  rw [int32] at h
  rw [IsEndMarker]
  rw [chainEntry] at h ⊢
  rcases hp.entrySize_cases with ⟨hsize, -⟩ | ⟨hsize, -⟩
  · simp only [hsize, if_true] at h ⊢
    have hlt := hword clusterId
    split at h <;> omega
  · simp only [hsize, if_neg (show ¬ (4 = 2) by decide), FATXPartition.dword] at h ⊢
    have hlow := hword (2 * clusterId)
    have hhigh := hword (2 * clusterId + 1)
    left
    split at h <;> omega

/-- `getNextClusterInChain` returns `-1` or the id of a cluster exactly when the entry that it looks up is an end
    marker or the id of a cluster. -/
theorem getNextClusterInChain_valid_iff (hp : partition.Opened) (clusterId : Int) :
    IdValid partition (getNextClusterInChain partition clusterId) ↔ EntryValid partition clusterId := by
  by_cases hend : IsEndMarker partition (chainEntry partition clusterId)
  · rw [getNextClusterInChain_last hp hend]
    exact ⟨fun _ => Or.inl hend, fun _ hne => absurd rfl hne⟩
  · rw [getNextClusterInChain_other hp hend]
    constructor
    · intro h
      exact Or.inr (h fun hlast => hend (isEndMarker_of_int32 hp hlast))
    · rintro (h | h) -
      · exact absurd h hend
      · exact h

/-- The ids that a walk passes on are those of clusters exactly when the first one is and every entry on the way
    is valid. -/
theorem walk_ids_valid_iff (hp : partition.Opened) {α : Type} {step : α → α} {stop : α → Prop}
    (clusterOf : α → Int) (hstep : ∀ s, clusterOf (step s) = getNextClusterInChain partition (clusterOf s))
    (hstop : ∀ s, clusterOf s = -1 → stop s) (s : α) :
    (∀ n, Reached step stop s n → IdValid partition (clusterOf (step^[n] s))) ↔
      IdValid partition (clusterOf s) ∧
        ∀ n, Reached step stop s (n + 1) → partition.InTable (clusterOf (step^[n] s)) →
          EntryValid partition (clusterOf (step^[n] s)) := by
  rw [Walk.forall_reached_iff (P := fun s => IdValid partition (clusterOf s))]
  apply and_congr_right
  intro hfirst
  apply forall_congr'
  intro n
  constructor
  · intro h hreached hin
    have hnext := h hreached fun _ => hin
    rw [hstep] at hnext
    exact (getNextClusterInChain_valid_iff hp _).mp hnext
  · intro h hreached hvalid
    have hgo : clusterOf (step^[n] s) ≠ -1 := fun hlast => hreached n (Nat.lt_succ_self n) (hstop _ hlast)
    rw [hstep]
    exact (getNextClusterInChain_valid_iff hp _).mpr (h hreached (hvalid hgo))

/-- Cluster ids stay in the chain table exactly as long as the entries that are followed do: the one that
    `getNextClusterInChain` looks up; for a file that is loaded, its first cluster and the entries of its chain; for a
    path that is searched, the first cluster and the chain entries of every directory on the way; and the same for
    a directory that is listed. -/
theorem cluster_ids_valid_iff (hp : partition.Opened) (ba clusterData : Mem) (stack : Nat → Mem)
    (fileinfo : FATXFILEINFO) (path : List UInt8) (clusterId : Int) :
    (∀ c, IdValid partition (getNextClusterInChain partition c) ↔ EntryValid partition c) ∧
      ((∀ n, Reached (getNextClusterInChain partition) (· = -1) fileinfo.clusterId n →
          IdValid partition ((getNextClusterInChain partition)^[n] fileinfo.clusterId)) ↔
        IdValid partition fileinfo.clusterId ∧
          ∀ n, Reached (getNextClusterInChain partition) (· = -1) fileinfo.clusterId (n + 1) →
            partition.InTable ((getNextClusterInChain partition)^[n] fileinfo.clusterId) →
              EntryValid partition ((getNextClusterInChain partition)^[n] fileinfo.clusterId)) ∧
      ((∀ path' clusterId', Searched drive ba stack partition path clusterId path' clusterId' →
          (seekName path').length ≤ fatxFilenameMax → ∀ n,
            Reached (clusterStep drive ba partition) (SearchStop drive ba partition (seekName path'))
                (clusterId', stack path'.length) n →
              IdValid partition (walked drive ba partition (clusterId', stack path'.length) n).1) ↔
        ∀ path' clusterId', Searched drive ba stack partition path clusterId path' clusterId' →
          (seekName path').length ≤ fatxFilenameMax → IdValid partition clusterId' ∧ ∀ n,
            Reached (clusterStep drive ba partition) (SearchStop drive ba partition (seekName path'))
                (clusterId', stack path'.length) (n + 1) →
              partition.InTable (walked drive ba partition (clusterId', stack path'.length) n).1 →
                EntryValid partition (walked drive ba partition (clusterId', stack path'.length) n).1) ∧
      ((∀ n, Reached (clusterStep drive ba partition) (DirectoryEnd drive ba partition) (clusterId, clusterData) n →
          IdValid partition (walked drive ba partition (clusterId, clusterData) n).1) ↔
        IdValid partition clusterId ∧
          ∀ n, Reached (clusterStep drive ba partition) (DirectoryEnd drive ba partition) (clusterId, clusterData)
              (n + 1) →
            partition.InTable (walked drive ba partition (clusterId, clusterData) n).1 →
              EntryValid partition (walked drive ba partition (clusterId, clusterData) n).1) := by
  refine ⟨getNextClusterInChain_valid_iff hp, ?_, ?_, ?_⟩
  · exact walk_ids_valid_iff hp (fun s => s) (fun _ => rfl) (fun _ h => h) fileinfo.clusterId
  · refine forall_congr' fun path' => forall_congr' fun clusterId' => ?_
    refine imp_congr_right fun _ => imp_congr_right fun _ => ?_
    exact walk_ids_valid_iff hp Prod.fst (fun _ => rfl) (fun _ h => Or.inl h) (clusterId', stack path'.length)
  · exact walk_ids_valid_iff hp Prod.fst (fun _ => rfl) (fun _ h => Or.inl h) (clusterId, clusterData)

/-- The ids of the chain of the file, of the search for it and of the listing. -/
theorem cluster_ids_valid_iff_small :
    IdValid filePartition (getNextClusterInChain filePartition 2) ∧
      (∀ n, Reached (getNextClusterInChain filePartition) (· = -1) 2 n →
        IdValid filePartition ((getNextClusterInChain filePartition)^[n] 2)) ∧
      (∀ path' clusterId', Searched (headerDrive fileSectors) (fun _ => 0) (fun _ _ => 0) filePartition [0x41]
          fatxRootFatCluster path' clusterId' →
        (seekName path').length ≤ fatxFilenameMax → ∀ n,
          Reached (clusterStep (headerDrive fileSectors) (fun _ => 0) filePartition)
              (SearchStop (headerDrive fileSectors) (fun _ => 0) filePartition (seekName path'))
              (clusterId', fun _ => 0) n →
            IdValid filePartition
              (walked (headerDrive fileSectors) (fun _ => 0) filePartition (clusterId', fun _ => 0) n).1) ∧
      ∀ n, Reached (clusterStep (headerDrive fileSectors) (fun _ => 0) filePartition)
          (DirectoryEnd (headerDrive fileSectors) (fun _ => 0) filePartition) (fatxRootFatCluster, fun _ => 0) n →
        IdValid filePartition
          (walked (headerDrive fileSectors) (fun _ => 0) filePartition (fatxRootFatCluster, fun _ => 0) n).1 := by
  have hids := @cluster_ids_valid_iff (headerDrive fileSectors) filePartition filePartition_opened (fun _ => 0) (fun _ => 0)
    (fun _ _ => 0) ⟨fun _ => 0, 2, 0x5000, 0, 0x900000⟩ [0x41] fatxRootFatCluster
  have hcluster : ∀ c, 1 ≤ c → c < 4 → IdValid filePartition c := fun c hpos hlt _ => ⟨hpos, hlt⟩
  have hnext : int32 (chainEntry filePartition 2) = 3 := by decide +kernel
  have hsecond : EntryValid filePartition 2 := by
    rw [EntryValid, hnext]
    exact Or.inr ⟨by decide, show (3 : Int) < (4 : Nat) by decide⟩
  have hlast : EntryValid filePartition 3 := Or.inl (Or.inl (by decide +kernel))
  have hend : (getNextClusterInChain filePartition)^[2] 2 = -1 := by decide +kernel
  have hthird : (getNextClusterInChain filePartition)^[1] 2 = 3 := by decide +kernel
  refine ⟨(hids.1 2).mpr hsecond, hids.2.1.mpr ⟨hcluster 2 (by decide) (by decide), fun n hn _ => ?_⟩,
    hids.2.2.1.mpr fun path' clusterId' hsearched _ => ?_,
    hids.2.2.2.mpr ⟨hcluster 1 (by decide) (by decide), fun n hn => ?_⟩⟩
  · obtain _ | _ | n := n
    · exact hsecond
    · rw [hthird]
      exact hlast
    · exact absurd hend (hn 2 (by omega))
  · cases hsearched with
    | here =>
        refine ⟨hcluster 1 (by decide) (by decide), fun n hn => ?_⟩
        exact absurd file_search_stops (hn 0 (Nat.succ_pos n))
    | into hsep => cases hsep
  · exact absurd file_directory_ends (hn 0 (Nat.succ_pos n))

/-- A file whose first cluster has a free entry in the chain table: cluster 0 is loaded next. -/
theorem free_entry_leads_to_cluster_zero :
    openFATXPartition (headerDrive fun _ _ => 0) (fun _ => 0) (fun _ => 0) (some fun _ => 0) 0 0x10000 =
        some (smallPartition (headerDrive fun _ _ => 0)) ∧
      (smallPartition (headerDrive fun _ _ => 0)).InTable 1 ∧
      Reached (getNextClusterInChain (smallPartition (headerDrive fun _ _ => 0))) (· = -1) 1 1 ∧
      ¬ IdValid (smallPartition (headerDrive fun _ _ => 0))
        ((getNextClusterInChain (smallPartition (headerDrive fun _ _ => 0)))^[1] 1) := by
  have hnext : getNextClusterInChain (smallPartition (headerDrive fun _ _ => 0)) 1 = 0 := by decide +kernel
  refine ⟨openFATXPartition_headerDrive _, ⟨by decide, show (1 : Int) < (4 : Nat) by decide⟩, fun m hm => ?_, ?_⟩
  · obtain rfl : m = 0 := Nat.lt_one_iff.mp hm
    decide
  · rw [Function.iterate_one, hnext]
    intro h
    exact absurd (h (by decide)).1 (by decide)

end Cromwell.Fatx
