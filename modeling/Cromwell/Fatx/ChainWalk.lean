/-
Module: Cromwell.Fatx.ChainWalk
Layer: Proofs
Purpose: The loops of the FATX driver as walks from cluster to cluster. Nothing but the disk ends them: a loop returns
  exactly when no cluster comes up twice with the same contents of the cluster buffer.
Imports: Cromwell.Lib.Walk, Cromwell.Fatx.Geometry, Cromwell.Fatx.Walkers
Trusted boundary: clusterStep, EntriesInside, SearchStop, Searched
Main exports: clusterStep, loadFATXCluster_loaded, EntriesInside, fatxLoadFromDisk_returns_iff, searchClusters_isLoop,
  fatxFindFileIn_returns_iff
-/
import Cromwell.Lib.Walk
import Cromwell.Fatx.Geometry
import Cromwell.Fatx.Walkers

namespace Cromwell.Fatx

open ByteMemory
open Cromwell.BootLibrary (strrchr0 strrchr0_eq_some)
open Walk (Reached Ends NoReturn IsLoop)

variable {drive : Drive} {partition : FATXPartition}

/-! ### One step -/

theorem int32_mem (n : Nat) : -2 ^ 31 ≤ int32 n ∧ int32 n < 2 ^ 31 := by
  rw [int32]
  split <;> omega

/-- What is not the end of a chain is passed on, whatever it is. -/
theorem getNextClusterInChain_other (hp : partition.Opened) {clusterId : Int}
    (h : ¬ IsEndMarker partition (chainEntry partition clusterId)) :
    getNextClusterInChain partition clusterId = int32 (chainEntry partition clusterId) := by
  rw [IsEndMarker, chainEntry] at h
  rw [getNextClusterInChain, chainEntry]
  rcases hp.entrySize_cases with ⟨hsize, -⟩ | ⟨hsize, -⟩
  · simp only [hsize, if_true] at h ⊢
    exact if_neg h
  · simp only [hsize, if_true, if_neg (show ¬ (4 = 2) by decide)] at h ⊢
    exact if_neg h

theorem getNextClusterInChain_mem (hp : partition.Opened) (clusterId : Int) :
    -2 ^ 31 ≤ getNextClusterInChain partition clusterId ∧ getNextClusterInChain partition clusterId < 2 ^ 31 := by
  by_cases h : IsEndMarker partition (chainEntry partition clusterId)
  · rw [getNextClusterInChain_last hp h]
    decide
  · rw [getNextClusterInChain_other hp h]
    exact int32_mem _

/-- Every address that a cluster id leads to is that of a sector, also when the partition has no such cluster. -/
theorem clusterAddress_aligned (hp : partition.Opened) (clusterId : Int) :
    clusterAddress partition clusterId % 512 = 0 := by
  have hmod := chainTableSize_mod partition.clusterCount partition.chainMapEntrySize
  have haligned : partition.cluster1Address % 512 = 0 := by
    rw [hp.cluster1Address, u32, fatxPartitionHeadersize]
    omega
  rw [clusterAddress, hp.clusterSize]
  omega

/-- A read leaves alone what lies behind it, whether it fails or not. -/
theorem rawReadLoop_behind (rounds : Nat) {sector byteLen byteRead : Nat} {buf : Mem} {x : Nat}
    (hx : byteRead + byteLen ≤ x) : (rawReadLoop drive rounds sector byteLen byteRead buf).2 x = buf x := by
  induction rounds generalizing sector byteLen byteRead buf with
  | zero => rfl
  | succ rounds ih =>
      rw [rawReadLoop]
      split
      case isTrue => rfl
      case isFalse hlen =>
        dsimp only
        split
        case h_1 => rfl
        case h_2 bytes hbytes =>
          have hle : (if byteLen < 512 then byteLen else 512) ≤ byteLen := by
            split <;> omega
          rw [ih (by omega), Mem.write_of_not_mem (by omega)]

/-- The cluster buffer after a cluster has been loaded. -/
def loaded (drive : Drive) (ba : Mem) (partition : FATXPartition) (s : Int × Mem) : Mem :=
  (loadFATXCluster drive ba partition s.1 s.2).getD s.2

/-- A cluster is loaded without a fault, and nothing is written behind the buffer. -/
theorem loadFATXCluster_loaded (hp : partition.Opened) (ba : Mem) (s : Int × Mem) :
    loadFATXCluster drive ba partition s.1 s.2 = some (loaded drive ba partition s) ∧
      ∀ x ≥ 0x4000, loaded drive ba partition s x = s.2 x := by
  have haligned := clusterAddress_aligned hp s.1
  have hload : loadFATXCluster drive ba partition s.1 s.2 =
      some (rawReadLoop drive 0x4000 (partition.partitionStart + clusterAddress partition s.1 / 512) 0x4000 0 s.2).2 := by
    rw [loadFATXCluster, fatxRawRead, hp.clusterSize]
    dsimp only
    rw [if_neg (by decide), if_neg (not_not.mpr haligned), Option.map_some]
  refine ⟨by rw [loaded, hload, Option.getD_some], fun x hx => ?_⟩
  rw [loaded, hload, Option.getD_some, rawReadLoop_behind 0x4000 (by omega)]

/-- The loops go from a cluster and the contents of the buffer to the next cluster and the contents after it. -/
def clusterStep (drive : Drive) (ba : Mem) (partition : FATXPartition) (s : Int × Mem) : Int × Mem :=
  (getNextClusterInChain partition s.1, loaded drive ba partition s)

/-- There are finitely many cluster ids. -/
theorem clusterIds_finite (hp : partition.Opened) (clusterId : Int) :
    ∃ S : Set Int, S.Finite ∧ ∀ n, (getNextClusterInChain partition)^[n] clusterId ∈ S := by
  refine ⟨insert clusterId (Set.Ico (-2 ^ 31) (2 ^ 31)), (Set.finite_Ico _ _).insert _, fun n => ?_⟩
  cases n with
  | zero =>
      exact Set.mem_insert _ _
  | succ n =>
      rw [Function.iterate_succ_apply']
      exact Set.mem_insert_of_mem _ (getNextClusterInChain_mem hp _)

/-- The contents of the buffer that agree with `data` behind the cluster. -/
def buffersOver (data : Mem) : Set Mem := {m | ∀ x ≥ 0x4000, m x = data x}

theorem buffersOver_finite (data : Mem) : (buffersOver data).Finite := by
  have : Finite UInt8 := Finite.of_injective UInt8.toFin UInt8.toFin_injective
  let buffer : (Fin 0x4000 → UInt8) → Mem := fun bytes x => if h : x < 0x4000 then bytes ⟨x, h⟩ else data x
  refine (Set.finite_range buffer).subset fun m hm => ⟨fun x => m x, funext fun x => ?_⟩
  by_cases hx : x < 0x4000
  · exact dif_pos hx
  · exact (dif_neg hx).trans (hm x (Nat.le_of_not_lt hx)).symm

/-- There are finitely many clusters and contents of the buffer. -/
theorem clusterStates_finite (hp : partition.Opened) (ba : Mem) (s : Int × Mem) :
    ∃ S : Set (Int × Mem), S.Finite ∧ ∀ n, (clusterStep drive ba partition)^[n] s ∈ S := by
  have hbuffer : ∀ n, ((clusterStep drive ba partition)^[n] s).2 ∈ buffersOver s.2 := by
    intro n
    induction n with
    | zero =>
        exact fun x _ => rfl
    | succ n ih =>
        rw [Function.iterate_succ_apply']
        intro x hx
        exact ((loadFATXCluster_loaded hp ba _).2 x hx).trans (ih x hx)
  refine ⟨insert s (Set.Ico (-2 ^ 31) (2 ^ 31) ×ˢ buffersOver s.2),
    ((Set.finite_Ico _ _).prod (buffersOver_finite _)).insert _, fun n => ?_⟩
  cases n with
  | zero =>
      exact Set.mem_insert _ _
  | succ n =>
      refine Set.mem_insert_of_mem _ ⟨?_, hbuffer (n + 1)⟩
      rw [Function.iterate_succ_apply']
      exact getNextClusterInChain_mem hp _

/-! ### The loop that loads a file -/

/-- The state after a round that looks up an entry of the table. -/
def loadStep (drive : Drive) (ba : Mem) (partition : FATXPartition) (s : LoadState) : LoadState :=
  (loadRound drive ba partition s).getD s

theorem loadRound_step (hp : partition.Opened) (ba : Mem) {s : LoadState} (h : partition.HasEntry s.clusterId) :
    loadRound drive ba partition s = some (loadStep drive ba partition s) ∧
      (loadStep drive ba partition s).clusterId = getNextClusterInChain partition s.clusterId := by
  have hload := (@loadFATXCluster_loaded drive partition hp ba (s.clusterId, s.clusterData)).1
  rw [loadStep, loadRound]
  dsimp only at hload ⊢
  rw [hload]
  simp only [Option.bind_eq_bind, Option.bind_some]
  rw [if_pos h]
  exact ⟨rfl, rfl⟩

theorem loadRound_outside (hp : partition.Opened) (ba : Mem) {s : LoadState} (h : ¬ partition.HasEntry s.clusterId) :
    loadRound drive ba partition s = none := by
  have hload := (@loadFATXCluster_loaded drive partition hp ba (s.clusterId, s.clusterData)).1
  rw [loadRound]
  dsimp only at hload ⊢
  rw [hload]
  simp only [Option.bind_eq_bind, Option.bind_some]
  exact if_neg h

/-- The loop ends when the chain does, and when every entry that it looks up is one of the table. -/
theorem loadClusters_isSome_iff (hp : partition.Opened) (ba : Mem) (rounds : Nat) (s : LoadState) :
    (loadClusters drive ba partition rounds s).isSome ↔
      ∃ n < rounds, Reached (getNextClusterInChain partition) (· = -1) s.clusterId n ∧
        (getNextClusterInChain partition)^[n] s.clusterId = -1 ∧
        ∀ m < n, partition.HasEntry ((getNextClusterInChain partition)^[m] s.clusterId) := by
  induction rounds generalizing s with
  | zero =>
      constructor
      · intro h
        cases h
      · rintro ⟨n, hn, -⟩
        exact absurd hn (Nat.not_lt_zero n)
  | succ rounds ih =>
      rw [loadClusters]
      by_cases hid : s.clusterId = -1
      · rw [if_pos hid]
        exact ⟨fun _ => ⟨0, Nat.succ_pos rounds, Walk.reached_zero, hid, fun m hm => absurd hm (Nat.not_lt_zero m)⟩,
          fun _ => rfl⟩
      · rw [if_neg hid]
        by_cases hentry : partition.HasEntry s.clusterId
        · obtain ⟨hround, hnext⟩ := @loadRound_step drive partition hp ba s hentry
          rw [hround, Option.bind_some, ih, hnext]
          constructor
          · rintro ⟨n, hn, hreached, hend, hall⟩
            refine ⟨n + 1, Nat.succ_lt_succ hn, Walk.reached_succ_iff.mpr ⟨hid, hreached⟩, hend, fun m hm => ?_⟩
            cases m with
            | zero => exact hentry
            | succ m => exact hall m (Nat.lt_of_succ_lt_succ hm)
          · rintro ⟨n, hn, hreached, hend, hall⟩
            cases n with
            | zero => exact absurd hend hid
            | succ n =>
                exact ⟨n, Nat.lt_of_succ_lt_succ hn, (Walk.reached_succ_iff.mp hreached).2, hend,
                  fun m hm => hall (m + 1) (Nat.succ_lt_succ hm)⟩
        · rw [loadRound_outside hp ba hentry, Option.bind_none]
          constructor
          · intro h
            cases h
          · rintro ⟨n, -, -, hend, hall⟩
            cases n with
            | zero => exact absurd hend hid
            | succ n => exact absurd (hall 0 (Nat.succ_pos n)) hentry

/-- Every entry that is looked up on the way is one of the table. -/
def EntriesInside (partition : FATXPartition) {α : Type} (step : α → α) (stop : α → Prop) (clusterOf : α → Int)
    (s : α) : Prop :=
  ∀ n, Reached step stop s (n + 1) → partition.HasEntry (clusterOf (step^[n] s))

/-- Nothing is looked up from the state on that stops the walk. -/
theorem EntriesInside.of_stop {α : Type} {step : α → α} {stop : α → Prop} {clusterOf : α → Int} {s : α} {n : Nat}
    (hstop : stop (step^[n] s)) (hall : ∀ m < n, partition.HasEntry (clusterOf (step^[m] s))) :
    EntriesInside partition step stop clusterOf s := by
  intro m hm
  apply hall m
  by_contra hlt
  exact hm n (Nat.lt_succ_of_le (Nat.le_of_not_lt hlt)) hstop

theorem EntriesInside.of_first {α : Type} {step : α → α} {stop : α → Prop} {clusterOf : α → Int} {s : α}
    (hstop : stop s) : EntriesInside partition step stop clusterOf s :=
  fun n hn => absurd hstop (hn 0 (Nat.succ_pos n))

/-- `FATXLoadFromDisk` returns exactly when no cluster of the chain comes up twice and every entry that is looked up is
    one of the table. -/
theorem fatxLoadFromDisk_returns_iff (hp : partition.Opened) (ba clusterData memory : Mem) (fileinfo : FATXFILEINFO) :
    (∃ rounds, (fatxLoadFromDisk drive ba clusterData partition rounds fileinfo memory).isSome) ↔
      NoReturn (getNextClusterInChain partition) (· = -1) fileinfo.clusterId ∧
        EntriesInside partition (getNextClusterInChain partition) (· = -1) (fun c => c) fileinfo.clusterId := by
  obtain ⟨S, hS, hmem⟩ := clusterIds_finite hp fileinfo.clusterId
  simp only [fatxLoadFromDisk, Option.isSome_map, loadClusters_isSome_iff hp ba]
  rw [← Walk.ends_iff_noReturn hS hmem]
  constructor
  · rintro ⟨rounds, n, -, hreached, hend, hall⟩
    exact ⟨⟨n, hend⟩, EntriesInside.of_stop hend hall⟩
  · rintro ⟨hends, hinside⟩
    obtain ⟨n, hreached, hend⟩ := hends.first
    exact ⟨n + 1, n, Nat.lt_succ_self n, hreached, hend, fun m hm => hinside m (hreached.of_le hm)⟩

/-! ### The loop that searches a directory -/

/-- The entries in the buffer. -/
def bufferEntries (data : Mem) : List DirectoryEntry := (List.range' 0 256).map (entryAt data)

/-- They are those of the cluster on the disk when it can be read. -/
theorem bufferEntries_loaded (hp : partition.Opened) (ba : Mem) {clusterId : Int}
    (hc : InRange drive partition clusterId) (data : Mem) :
    bufferEntries (loaded drive ba partition (clusterId, data)) = clusterEntries drive partition clusterId := by
  rw [bufferEntries, loaded, loadFATXCluster_eq hp ba hc, Option.getD_some, loaded_entries]

/-- The search for a name ends at this entry. -/
def DirectoryEntry.StopsSearch (name : List UInt8) (e : DirectoryEntry) : Prop :=
  e.isEnd = true ∨ e.isDeleted = false ∧ (e.isInvalid = true ∨ e.name = name)

/-- The search for a name ends in this cluster. -/
def SearchStop (drive : Drive) (ba : Mem) (partition : FATXPartition) (name : List UInt8) (s : Int × Mem) : Prop :=
  s.1 = -1 ∨ ∃ e ∈ bufferEntries (loaded drive ba partition s), e.StopsSearch name

/-- Entries that do not end the search are skipped. -/
theorem lookup_append_of_go {name : List UInt8} {l : List DirectoryEntry} (h : ∀ e ∈ l, ¬ e.StopsSearch name)
    (rest : List DirectoryEntry) : lookup name (l ++ rest) = lookup name rest := by
  induction l with
  | nil =>
      rfl
  | cons e l ih =>
      obtain ⟨hend, hother⟩ := not_or.mp (h e List.mem_cons_self)
      have hrest := ih fun e' he' => h e' (List.mem_cons_of_mem _ he')
      rw [List.cons_append, lookup, if_neg hend]
      by_cases hdel : e.isDeleted = true
      · rw [if_pos hdel, hrest]
      · have hname := not_or.mp fun hn => hother ⟨Bool.eq_false_of_not_eq_true hdel, hn⟩
        rw [if_neg hdel, if_neg hname.1, if_neg hname.2, hrest]

/-- Nothing counts behind an entry that ends the search. -/
theorem lookup_append_of_stop {name : List UInt8} {l : List DirectoryEntry} (h : ∃ e ∈ l, e.StopsSearch name)
    (rest : List DirectoryEntry) : lookup name (l ++ rest) = lookup name l := by
  induction l with
  | nil =>
      obtain ⟨e, he, -⟩ := h
      cases he
  | cons e l ih =>
      rw [List.cons_append, lookup, lookup]
      by_cases hstop : e.StopsSearch name
      · rcases hstop with hend | ⟨hdel, hinvalid | hname⟩
        · rw [if_pos hend, if_pos hend]
        · simp only [hdel, hinvalid, if_true, Bool.false_eq_true, if_false]
        · simp only [hdel, hname, if_true, Bool.false_eq_true, if_false]
      · obtain ⟨e', he', hstop'⟩ := h
        rcases List.mem_cons.mp he' with rfl | hmem
        · exact absurd hstop' hstop
        · rw [ih ⟨e', hmem, hstop'⟩]

/-- The loop over the entries goes on to the next cluster when no entry ends the search. -/
theorem scanEntries_nextCluster_iff (name : List UInt8) (data : Mem) :
    scanEntries name data 256 0 = .nextCluster ↔ ∀ e ∈ bufferEntries data, ¬ e.StopsSearch name := by
  have hscan := scanEntries_spec name data 256 0
  -- A lookup behind the entries tells the two apart.
  have hbehind : lookup name [⟨1, 0, name, 0, 0⟩] = some ⟨1, 0, name, 0, 0⟩ := by
    simp [lookup, DirectoryEntry.isEnd, DirectoryEntry.isDeleted, DirectoryEntry.isInvalid]
  rw [← bufferEntries] at hscan
  constructor
  · intro hnext
    by_contra hstop
    push Not at hstop
    rw [hnext] at hscan
    have hempty := hscan []
    rw [lookup_append_of_stop hstop] at hempty
    have hone := hscan [⟨1, 0, name, 0, 0⟩]
    rw [lookup_append_of_stop hstop, hempty, hbehind] at hone
    cases hone
  · intro hgo
    have hone := lookup_append_of_go hgo [⟨1, 0, name, 0, 0⟩]
    have hempty := lookup_append_of_go hgo []
    rw [hbehind] at hone
    cases hresult : scanEntries name data 256 0 with
    | nextCluster =>
        rfl
    | endOfDirectory =>
        rw [hresult] at hscan
        rw [hscan] at hone
        cases hone
    | invalidSize =>
        rw [hresult] at hscan
        rw [hscan] at hone
        cases hone
    | found flags entryClusterId fileSize =>
        rw [hresult] at hscan
        obtain ⟨e, -, -, -, hlookup⟩ := hscan
        rw [hlookup] at hempty
        cases hempty

/-- What the search of a directory ends with. -/
def searchOut (drive : Drive) (ba : Mem) (partition : FATXPartition) (name : List UInt8) (s : Int × Mem) : ScanResult :=
  if s.1 = -1 then .endOfDirectory else scanEntries name (loaded drive ba partition s) 256 0

theorem searchClusters_isLoop (hp : partition.Opened) (ba : Mem) (name : List UInt8) :
    IsLoop (clusterStep drive ba partition) (SearchStop drive ba partition name) (searchOut drive ba partition name)
      fun rounds s => searchClusters drive ba partition name rounds s.1 s.2 := by
  have hcount : partition.clusterSize / fatxDirectoryentrySize = 256 := by
    rw [hp.clusterSize]
    rfl
  constructor
  case zero =>
    intro s
    rfl
  case halt =>
    intro n s hs
    rw [searchClusters, searchOut]
    by_cases hid : s.1 = -1
    · rw [if_pos hid, if_pos hid]
    · have hstop : scanEntries name (loaded drive ba partition s) 256 0 ≠ .nextCluster := by
        rw [Ne, scanEntries_nextCluster_iff]
        push Not
        exact hs.resolve_left hid
      rw [if_neg hid, if_neg hid, (loadFATXCluster_loaded hp ba s).1, hcount]
      simp only [Option.bind_eq_bind, Option.bind_some]
  case next =>
    intro n s hs
    obtain ⟨hid, hgo⟩ := not_or.mp hs
    push Not at hgo
    rw [searchClusters, if_neg hid, (loadFATXCluster_loaded hp ba s).1, hcount]
    simp only [Option.bind_eq_bind, Option.bind_some]
    rw [(scanEntries_nextCluster_iff name _).mpr hgo]
    rfl

/-- The search of a directory returns exactly when no cluster comes up twice with the same contents. -/
theorem searchClusters_returns_iff (hp : partition.Opened) (ba : Mem) (name : List UInt8) (s : Int × Mem) :
    (∃ rounds, (searchClusters drive ba partition name rounds s.1 s.2).isSome) ↔
      NoReturn (clusterStep drive ba partition) (SearchStop drive ba partition name) s := by
  obtain ⟨S, hS, hmem⟩ := @clusterStates_finite drive partition hp ba s
  rw [← Walk.ends_iff_noReturn hS hmem]
  exact (searchClusters_isLoop hp ba name).returns_iff

/-! ### The directories of a path -/

/-- The name that is looked for first. -/
def seekName (path : List UInt8) : List UInt8 :=
  match strrchr0 0x2f path with
  | none => path
  | some (name, _) => name

/-- The directories that the search of a path gets to, with the path that is left there: each further one is an
    entry of the cluster in which the search of the directory before it ends. -/
inductive Searched (drive : Drive) (ba : Mem) (stack : Nat → Mem) (partition : FATXPartition) :
    List UInt8 → Int → List UInt8 → Int → Prop where
  | here {path : List UInt8} {clusterId : Int} : Searched drive ba stack partition path clusterId path clusterId
  | into {path name rest path' : List UInt8} {clusterId clusterId' : Int} {n : Nat} {e : DirectoryEntry}
      (hsep : strrchr0 0x2f path = some (name, rest)) (hlen : name.length ≤ fatxFilenameMax)
      (reached : Reached (clusterStep drive ba partition) (SearchStop drive ba partition name)
        (clusterId, stack path.length) n)
      (inside : ((clusterStep drive ba partition)^[n] (clusterId, stack path.length)).1 ≠ -1)
      (found : lookup name (bufferEntries
        (loaded drive ba partition ((clusterStep drive ba partition)^[n] (clusterId, stack path.length)))) = some e)
      (isDir : e.isDirectory = true) (next : Searched drive ba stack partition rest e.clusterId path' clusterId') :
      Searched drive ba stack partition path clusterId path' clusterId'

/-- A lookup that finds something ends the search. -/
theorem stop_of_lookup {name : List UInt8} {l : List DirectoryEntry} {e : DirectoryEntry}
    (h : lookup name l = some e) : ∃ e ∈ l, e.StopsSearch name := by
  by_contra hgo
  push Not at hgo
  have hempty := lookup_append_of_go hgo []
  rw [List.append_nil, h] at hempty
  cases hempty

/-- A search that ends with an entry has looked it up in the cluster in which it ended. -/
theorem searchClusters_found_iff (hp : partition.Opened) (ba : Mem) {name : List UInt8} {s : Int × Mem}
    {rounds : Nat} {flags : UInt8} {entryClusterId fileSize : Nat}
    (h : searchClusters drive ba partition name rounds s.1 s.2 = some (.found flags entryClusterId fileSize)) :
    ∃ n e, Reached (clusterStep drive ba partition) (SearchStop drive ba partition name) s n ∧
      ((clusterStep drive ba partition)^[n] s).1 ≠ -1 ∧
      lookup name (bufferEntries (loaded drive ba partition ((clusterStep drive ba partition)^[n] s))) = some e ∧
      e.flags = flags ∧ e.clusterId = int32 entryClusterId ∧ e.fileSize = fileSize := by
  obtain ⟨n, -, hreached, -, hout⟩ := (searchClusters_isLoop hp ba name).eq_some_iff.mp h
  rw [searchOut] at hout
  split at hout
  case isTrue => cases hout
  case isFalse hid =>
    have hscan := scanEntries_spec name (loaded drive ba partition ((clusterStep drive ba partition)^[n] s)) 256 0
    rw [hout, ← bufferEntries] at hscan
    obtain ⟨e, hflags, hcluster, hsize, hlookup⟩ := hscan
    have hfound := hlookup []
    rw [List.append_nil] at hfound
    exact ⟨n, e, hreached, hid, hfound, hflags, hcluster, hsize⟩

/-- The other way round: what is looked up there is what the search ends with. -/
theorem searchClusters_of_lookup (hp : partition.Opened) (ba : Mem) {name : List UInt8} {s : Int × Mem} {n : Nat}
    {e : DirectoryEntry}
    (hreached : Reached (clusterStep drive ba partition) (SearchStop drive ba partition name) s n)
    (hid : ((clusterStep drive ba partition)^[n] s).1 ≠ -1)
    (hfound : lookup name (bufferEntries (loaded drive ba partition ((clusterStep drive ba partition)^[n] s))) =
      some e) {rounds : Nat} {result : ScanResult}
    (h : searchClusters drive ba partition name rounds s.1 s.2 = some result) :
    ∃ entryClusterId fileSize, result = .found e.flags entryClusterId fileSize ∧
      e.clusterId = int32 entryClusterId := by
  obtain ⟨m, -, hreached', hstop, hout⟩ := (searchClusters_isLoop hp ba name).eq_some_iff.mp h
  have hstop' : SearchStop drive ba partition name ((clusterStep drive ba partition)^[n] s) :=
    Or.inr (stop_of_lookup hfound)
  obtain rfl : m = n := by
    rcases Nat.lt_trichotomy m n with hlt | heq | hgt
    · exact absurd hstop (hreached m hlt)
    · exact heq
    · exact absurd hstop' (hreached' n hgt)
  rw [searchOut, if_neg hid] at hout
  have hscan := scanEntries_spec name (loaded drive ba partition ((clusterStep drive ba partition)^[m] s)) 256 0
  rw [hout, ← bufferEntries] at hscan
  cases result with
  | nextCluster =>
      have hnext := hscan []
      rw [List.append_nil, hfound] at hnext
      cases hnext
  | endOfDirectory | invalidSize =>
      have hnone := hscan []
      rw [List.append_nil, hfound] at hnone
      cases hnone
  | found flags entryClusterId fileSize =>
      obtain ⟨e', hflags, hcluster, -, hlookup⟩ := hscan
      have hsame := hlookup []
      rw [List.append_nil, hfound] at hsame
      cases hsame
      exact ⟨entryClusterId, fileSize, by rw [hflags], hcluster⟩

/-! ### The search of a path -/

section FindFile

variable (hp : partition.Opened) (ba : Mem) (stack : Nat → Mem) (fileinfo : FATXFILEINFO)

/-- A name that is too long is not searched for. -/
theorem fatxFindFileIn_long {path : List UInt8} (hlong : fatxFilenameMax < (seekName path).length) (rounds : Nat)
    (clusterId : Int) :
    fatxFindFileIn drive ba stack partition rounds path clusterId fileinfo = some (false, fileinfo) := by
  rw [seekName] at hlong
  rw [fatxFindFileIn]
  split
  case h_1 hsep =>
    rw [hsep] at hlong
    exact if_pos hlong
  case h_2 name rest hsep =>
    rw [hsep] at hlong
    exact if_pos hlong

/-- A path of one component. -/
theorem fatxFindFileIn_file {path : List UInt8} (hsep : strrchr0 0x2f path = none)
    (hlen : path.length ≤ fatxFilenameMax) (rounds : Nat) (clusterId : Int) :
    (fatxFindFileIn drive ba stack partition rounds path clusterId fileinfo).isSome =
      (searchClusters drive ba partition path rounds clusterId (stack path.length)).isSome := by
  rw [fatxFindFileIn]
  split
  case h_2 hsome =>
    rw [hsep] at hsome
    cases hsome
  case h_1 =>
    rw [if_neg (Nat.not_lt.mpr hlen)]
    split
    case h_1 hnone => rw [hnone]; rfl
    case h_2 hfound =>
      rw [hfound]
      split <;> rfl
    case h_3 hsome => rw [hsome]; rfl

/-- The search goes on in a directory that is found. -/
theorem fatxFindFileIn_slash {path name rest : List UInt8} (hsep : strrchr0 0x2f path = some (name, rest))
    (hlen : name.length ≤ fatxFilenameMax) (rounds : Nat) (clusterId : Int) :
    fatxFindFileIn drive ba stack partition rounds path clusterId fileinfo =
      (searchClusters drive ba partition name rounds clusterId (stack path.length)).bind fun result =>
        match result with
        | .found flags entryClusterId _ =>
            if flags &&& fatxFileattrDirectory ≠ 0 then
              fatxFindFileIn drive ba stack partition rounds rest (int32 entryClusterId) fileinfo
            else some (false, fileinfo)
        | _ => some (false, fileinfo) := by
  rw [fatxFindFileIn]
  split
  case h_1 hnone =>
    rw [hsep] at hnone
    cases hnone
  case h_2 name' rest' hsome =>
    rw [hsep] at hsome
    cases hsome
    rw [if_neg (Nat.not_lt.mpr hlen)]
    split
    case h_1 hnone => rw [hnone, Option.bind_none]
    case h_2 hfound => rw [hfound, Option.bind_some]
    case h_3 result hother hsome =>
      rw [hsome, Option.bind_some]
      cases result with
      | found flags entryClusterId fileSize => exact absurd rfl (hother flags entryClusterId fileSize)
      | nextCluster | endOfDirectory | invalidSize => rfl

include hp

/-- More rounds do not hurt. -/
theorem fatxFindFileIn_isSome_mono {path : List UInt8} {clusterId : Int} {rounds rounds' : Nat}
    (hle : rounds ≤ rounds')
    (h : (fatxFindFileIn drive ba stack partition rounds path clusterId fileinfo).isSome) :
    (fatxFindFileIn drive ba stack partition rounds' path clusterId fileinfo).isSome := by
  induction hlen : path.length using Nat.strong_induction_on generalizing path clusterId with
  | _ n ih =>
    by_cases hlong : fatxFilenameMax < (seekName path).length
    · rw [fatxFindFileIn_long ba stack fileinfo hlong]
      rfl
    · have hshort := Nat.le_of_not_lt hlong
      rw [seekName] at hshort
      cases hsep : strrchr0 0x2f path with
      | none =>
          rw [hsep] at hshort
          rw [fatxFindFileIn_file ba stack fileinfo hsep hshort] at h ⊢
          obtain ⟨result, hresult⟩ := Option.isSome_iff_exists.mp h
          exact Option.isSome_iff_exists.mpr
            ⟨result, (searchClusters_isLoop hp ba path).mono hle (a := (clusterId, stack path.length)) hresult⟩
      | some parts =>
          obtain ⟨name, rest⟩ := parts
          rw [hsep] at hshort
          rw [fatxFindFileIn_slash ba stack fileinfo hsep hshort] at h ⊢
          obtain ⟨out, hout⟩ := Option.isSome_iff_exists.mp h
          obtain ⟨result, hresult, hrest⟩ := Option.bind_eq_some_iff.mp hout
          have hresult' := (searchClusters_isLoop hp ba name).mono hle (a := (clusterId, stack path.length)) hresult
          dsimp only at hresult'
          rw [hresult', Option.bind_some]
          cases result with
          | nextCluster | endOfDirectory | invalidSize => rfl
          | found flags entryClusterId fileSize =>
              dsimp only at hrest ⊢
              split at hrest
              case isFalse hfile =>
                rw [if_neg hfile]
                rfl
              case isTrue hdir =>
                rw [if_pos hdir]
                have hshorter : rest.length < n := by
                  rw [← hlen, (strrchr0_eq_some hsep).1, List.length_append, List.length_cons]
                  omega
                exact ih rest.length hshorter (Option.isSome_iff_exists.mpr ⟨out, hrest⟩) rfl

/-- `_FATXFindFile` returns exactly when in no directory that it gets to a cluster comes up twice with the same
    contents. -/
theorem fatxFindFileIn_returns_iff (path : List UInt8) (clusterId : Int) :
    (∃ rounds, (fatxFindFileIn drive ba stack partition rounds path clusterId fileinfo).isSome) ↔
      ∀ path' clusterId', Searched drive ba stack partition path clusterId path' clusterId' →
        (seekName path').length ≤ fatxFilenameMax →
          NoReturn (clusterStep drive ba partition) (SearchStop drive ba partition (seekName path'))
            (clusterId', stack path'.length) := by
  induction hlen : path.length using Nat.strong_induction_on generalizing path clusterId with
  | _ n ih =>
    by_cases hlong : fatxFilenameMax < (seekName path).length
    · constructor
      · rintro - path' clusterId' hsearched hshort
        cases hsearched with
        | here =>
            exact absurd hlong (Nat.not_lt.mpr hshort)
        | into hsep hname =>
            rw [seekName, hsep] at hlong
            exact absurd hlong (Nat.not_lt.mpr hname)
      · intro
        exact ⟨0, by rw [fatxFindFileIn_long ba stack fileinfo hlong]; rfl⟩
    · have hshort := Nat.le_of_not_lt hlong
      rw [seekName] at hshort
      cases hsep : strrchr0 0x2f path with
      | none =>
          rw [hsep] at hshort
          have hname : seekName path = path := by
            rw [seekName, hsep]
          have hreturns := @searchClusters_returns_iff drive partition hp ba path (clusterId, stack path.length)
          simp only [fatxFindFileIn_file ba stack fileinfo hsep hshort]
          rw [hreturns]
          constructor
          · rintro hwalk path' clusterId' hsearched -
            cases hsearched with
            | here =>
                rw [hname]
                exact hwalk
            | into hsep' =>
                rw [hsep] at hsep'
                cases hsep'
          · intro h
            have hwalk := h path clusterId Searched.here (by rw [hname]; exact hshort)
            rwa [hname] at hwalk
      | some parts =>
          obtain ⟨name, rest⟩ := parts
          rw [hsep] at hshort
          have hname : seekName path = name := by
            rw [seekName, hsep]
          have hshorter : rest.length < n := by
            rw [← hlen, (strrchr0_eq_some hsep).1, List.length_append, List.length_cons]
            omega
          have hreturns := @searchClusters_returns_iff drive partition hp ba name (clusterId, stack path.length)
          constructor
          · rintro ⟨rounds, hrounds⟩ path' clusterId' hsearched hseek
            rw [fatxFindFileIn_slash ba stack fileinfo hsep hshort] at hrounds
            obtain ⟨out, hout⟩ := Option.isSome_iff_exists.mp hrounds
            obtain ⟨result, hresult, hrest⟩ := Option.bind_eq_some_iff.mp hout
            cases hsearched with
            | here =>
                rw [hname]
                exact hreturns.mp ⟨rounds, Option.isSome_iff_exists.mpr ⟨result, hresult⟩⟩
            | into hsep' hlen' hreached hid hfound hdir hnext =>
                rw [hsep] at hsep'
                cases hsep'
                obtain ⟨entryClusterId, fileSize, rfl, hcluster⟩ :=
                  searchClusters_of_lookup hp ba hreached hid hfound hresult
                dsimp only at hrest
                rw [if_pos ((isDirectory_iff _).mp hdir), ← hcluster] at hrest
                exact (ih rest.length hshorter rest _ rfl).mp ⟨rounds, Option.isSome_iff_exists.mpr ⟨out, hrest⟩⟩
                  path' clusterId' hnext hseek
          · intro h
            have hwalk := h path clusterId Searched.here (by rw [hname]; exact hshort)
            rw [hname] at hwalk
            obtain ⟨rounds, hrounds⟩ := hreturns.mpr hwalk
            obtain ⟨result, hresult⟩ := Option.isSome_iff_exists.mp hrounds
            cases result with
            | nextCluster | endOfDirectory | invalidSize =>
                refine ⟨rounds, ?_⟩
                rw [fatxFindFileIn_slash ba stack fileinfo hsep hshort, hresult]
                rfl
            | found flags entryClusterId fileSize =>
                obtain ⟨n, e, hreached, hid, hfound, hflags, hcluster, -⟩ :=
                  searchClusters_found_iff hp ba (s := (clusterId, stack path.length)) hresult
                by_cases hdir : e.isDirectory = true
                · obtain ⟨rounds', hrounds'⟩ := (ih rest.length hshorter rest e.clusterId rfl).mpr
                    fun path' clusterId' hnext => h path' clusterId'
                      (Searched.into hsep hshort hreached hid hfound hdir hnext)
                  refine ⟨max rounds rounds', ?_⟩
                  have hresult' := (searchClusters_isLoop hp ba name).mono (le_max_left rounds rounds')
                    (a := (clusterId, stack path.length)) hresult
                  dsimp only at hresult'
                  rw [fatxFindFileIn_slash ba stack fileinfo hsep hshort, hresult', Option.bind_some]
                  dsimp only
                  rw [if_pos (by rw [← hflags]; exact (isDirectory_iff e).mp hdir), ← hcluster]
                  exact fatxFindFileIn_isSome_mono hp ba stack fileinfo (le_max_right rounds rounds') hrounds'
                · refine ⟨rounds, ?_⟩
                  rw [fatxFindFileIn_slash ba stack fileinfo hsep hshort, hresult, Option.bind_some]
                  dsimp only
                  rw [if_neg (by rw [← hflags]; exact fun hflag => hdir ((isDirectory_iff e).mpr hflag))]
                  rfl

end FindFile

end Cromwell.Fatx
