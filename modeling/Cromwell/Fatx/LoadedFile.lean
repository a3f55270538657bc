/-
Module: Cromwell.Fatx.LoadedFile
Layer: Proofs
Purpose: `FATXLoadFromDisk` loads the file. The file is the bytes of the clusters of its chain, one behind the other;
  a round of the loop appends one cluster or the rest of the file, and behind the end of the file it appends nothing.
Imports: Cromwell.Fatx.Geometry, Cromwell.Fatx.Walkers
Trusted boundary: chainByte
Main exports: loadRound_eq, loadClusters_chain, fatxLoadFromDisk_loads_file
-/
import Cromwell.Fatx.Geometry
import Cromwell.Fatx.Walkers

namespace Cromwell.Fatx

open ByteMemory

variable {drive : Drive} {partition : FATXPartition}

/-- Byte `x` of the clusters of a chain, one behind the other. -/
def chainByte (drive : Drive) (partition : FATXPartition) (chain : List Int) (x : Nat) : UInt8 :=
  match chain[x / 0x4000]? with
  | none => 0
  | some clusterId => clusterByte drive partition clusterId (x % 0x4000)

theorem chainByte_first {clusterId : Int} {rest : List Int} {x : Nat} (hx : x < 0x4000) :
    chainByte drive partition (clusterId :: rest) x = clusterByte drive partition clusterId x := by
  rw [chainByte, Nat.div_eq_of_lt hx, Nat.mod_eq_of_lt hx]
  rfl

theorem chainByte_rest {clusterId : Int} {rest : List Int} (x : Nat) :
    chainByte drive partition (clusterId :: rest) (0x4000 + x) = chainByte drive partition rest x := by
  have hdiv : (0x4000 + x) / 0x4000 = x / 0x4000 + 1 := by omega
  have hmod : (0x4000 + x) % 0x4000 = x % 0x4000 := by omega
  rw [chainByte, chainByte, hdiv, hmod, List.getElem?_cons_succ]

/-- A cluster of the file and the clusters behind it. -/
theorem write_chain (memory : Mem) (ptr n : Nat) (clusterId : Int) (rest : List Int) {written : Nat}
    (hwritten : written = 0x4000 ∨ written < 0x4000 ∧ n = 0) :
    (memory.write ptr written (clusterByte drive partition clusterId)).write (ptr + written) n
        (chainByte drive partition rest) =
      memory.write ptr (written + n) (chainByte drive partition (clusterId :: rest)) := by
  rw [← Mem.write_append, Mem.write_congr fun k hk => (chainByte_first (by omega)).symm]
  apply Mem.write_congr
  intro k hk
  rcases hwritten with rfl | ⟨-, rfl⟩
  · exact (chainByte_rest k).symm
  · exact absurd hk (Nat.not_lt_zero k)

/-- How much of the file a cluster holds. -/
def written (fileSize : Nat) : Nat := min fileSize 0x4000

/-- The state after a round in a cluster of the partition. -/
def afterCluster (drive : Drive) (partition : FATXPartition) (s : LoadState) : LoadState :=
  { clusterId := getNextClusterInChain partition s.clusterId
    clusterData := s.clusterData.write 0 0x4000 (clusterByte drive partition s.clusterId)
    fileSize := s.fileSize - written s.fileSize
    fileRead := s.fileRead + written s.fileSize
    ptr := s.ptr + written s.fileSize
    memory := s.memory.write s.ptr (written s.fileSize) (clusterByte drive partition s.clusterId) }

theorem InRange.hasEntry {clusterId : Int} (hc : InRange drive partition clusterId) : partition.HasEntry clusterId :=
  ⟨Int.le_trans (by decide) hc.pos, Or.inl hc.lt⟩

theorem loadRound_eq (hp : partition.Opened) (ba : Mem) {s : LoadState}
    (hc : InRange drive partition s.clusterId) (hsize : s.fileRead + s.fileSize < 2 ^ 32) :
    loadRound drive ba partition s = some (afterCluster drive partition s) := by
  have hwritten : (if s.fileSize ≤ 0x4000 then s.fileSize else 0x4000) = written s.fileSize := by
    rw [written, Nat.min_def]
  have hle : written s.fileSize ≤ s.fileSize := Nat.min_le_left _ _
  have hcluster : written s.fileSize ≤ 0x4000 := Nat.min_le_right _ _
  have hsub : sub32 s.fileSize (written s.fileSize) = s.fileSize - written s.fileSize := by
    rw [sub32, u32]
    omega
  have hbytes : s.memory.write s.ptr (written s.fileSize)
      (s.clusterData.write 0 0x4000 (clusterByte drive partition s.clusterId)) =
        s.memory.write s.ptr (written s.fileSize) (clusterByte drive partition s.clusterId) := by
    apply Mem.write_congr
    intro k hk
    rw [Mem.write, if_pos (by omega), Nat.sub_zero]
  rw [loadRound, loadFATXCluster_eq hp ba hc, hp.clusterSize]
  simp only [Option.bind_eq_bind, Option.bind_some]
  rw [if_pos hc.hasEntry, hwritten, hsub, hbytes, u32_of_lt (by omega), afterCluster]

/-- The state behind a chain: the file is loaded as far as the chain goes. -/
structure Loaded (drive : Drive) (partition : FATXPartition) (chain : List Int) (s s' : LoadState) : Prop where
  fileSize : s'.fileSize = s.fileSize - min s.fileSize (chain.length * 0x4000)
  fileRead : s'.fileRead = s.fileRead + min s.fileSize (chain.length * 0x4000)
  memory : s'.memory =
    s.memory.write s.ptr (min s.fileSize (chain.length * 0x4000)) (chainByte drive partition chain)

theorem Loaded.nil (s : LoadState) : Loaded drive partition [] s s := by
  constructor
  · simp
  · simp
  · simp [Mem.write_zero]

/-- A first cluster, and the clusters behind it. -/
theorem Loaded.cons {rest : List Int} {s s' : LoadState}
    (h : Loaded drive partition rest (afterCluster drive partition s) s') :
    Loaded drive partition (s.clusterId :: rest) s s' := by
  have hwritten : written s.fileSize = min s.fileSize 0x4000 := rfl
  have htotal : min s.fileSize ((s.clusterId :: rest).length * 0x4000) =
      written s.fileSize + min (afterCluster drive partition s).fileSize (rest.length * 0x4000) := by
    rw [List.length_cons, afterCluster]
    dsimp only
    omega
  constructor
  · rw [h.fileSize, htotal, afterCluster]
    dsimp only
    omega
  · rw [h.fileRead, htotal, afterCluster]
    dsimp only
    omega
  · rw [h.memory, htotal, afterCluster]
    apply write_chain
    dsimp only
    omega

/-- The loop follows the chain to its end, and a file behind which the chain goes on is complete before. -/
theorem loadClusters_chain (hp : partition.Opened) (ba : Mem) {clusterId : Int} {chain : List Int}
    (hchain : Chain drive partition clusterId chain) {rounds : Nat} (hrounds : chain.length < rounds)
    {s : LoadState} (hid : s.clusterId = clusterId) (hsize : s.fileRead + s.fileSize < 2 ^ 32) :
    ∃ s', loadClusters drive ba partition rounds s = some s' ∧ Loaded drive partition chain s s' := by
  induction hchain generalizing rounds s with
  | last here stop =>
      rw [List.length_singleton] at hrounds
      obtain ⟨rounds, rfl⟩ : ∃ n, rounds = n + 1 + 1 := ⟨rounds - 2, by omega⟩
      have hpos := here.pos
      subst hid
      have hend : (afterCluster drive partition s).clusterId = -1 := getNextClusterInChain_last hp stop
      rw [loadClusters, if_neg (by omega), loadRound_eq hp ba here hsize, Option.bind_some, loadClusters,
        if_pos hend]
      exact ⟨_, rfl, Loaded.cons (Loaded.nil _)⟩
  | @step _ rest here next ih =>
      rw [List.length_cons] at hrounds
      obtain ⟨rounds, rfl⟩ : ∃ n, rounds = n + 1 := ⟨rounds - 1, by omega⟩
      have hpos := here.pos
      subst hid
      have hnext : (afterCluster drive partition s).clusterId = int32 (chainEntry partition s.clusterId) :=
        getNextClusterInChain_step hp next.inRange.pos next.inRange.lt
      have hsize' : (afterCluster drive partition s).fileRead + (afterCluster drive partition s).fileSize < 2 ^ 32 := by
        have hle : written s.fileSize ≤ s.fileSize := Nat.min_le_left _ _
        rw [afterCluster]
        dsimp only
        omega
      rw [loadClusters, if_neg (by omega), loadRound_eq hp ba here hsize, Option.bind_some]
      obtain ⟨s', hs', hloaded⟩ := ih (show rest.length < rounds by omega) hnext hsize'
      exact ⟨s', hs', Loaded.cons hloaded⟩

/-- `FATXLoadFromDisk` loads the file as far as its chain goes, writes nothing behind it, counts what it has
    loaded and reports whether that is the whole file. -/
theorem fatxLoadFromDisk_loads_file (hp : partition.Opened) (fileinfo : FATXFILEINFO) {chain : List Int}
    (hchain : Chain drive partition fileinfo.clusterId chain) (hsize : fileinfo.fileSize < 2 ^ 32)
    (ba clusterData memory : Mem) :
    ∃ bound, ∀ rounds ≥ bound,
      fatxLoadFromDisk drive ba clusterData partition rounds fileinfo memory =
        some (decide (fileinfo.fileSize ≤ chain.length * 0x4000),
          { fileinfo with fileRead := min fileinfo.fileSize (chain.length * 0x4000) },
          memory.write fileinfo.buffer (min fileinfo.fileSize (chain.length * 0x4000))
            (chainByte drive partition chain)) := by
  refine ⟨chain.length + 1, fun rounds hrounds => ?_⟩
  obtain ⟨s', hs', hloaded⟩ := loadClusters_chain hp ba hchain (show chain.length < rounds from hrounds)
    (s := ⟨fileinfo.clusterId, clusterData, fileinfo.fileSize, 0, fileinfo.buffer, memory⟩) rfl
    (by dsimp only; omega)
  have hcomplete : (s'.fileSize == 0) = decide (fileinfo.fileSize ≤ chain.length * 0x4000) := by
    rw [hloaded.fileSize, Bool.eq_iff_iff, beq_iff_eq, decide_eq_true_iff]
    dsimp only
    omega
  rw [fatxLoadFromDisk, hs', Option.map_some, hcomplete, hloaded.fileRead, hloaded.memory, Nat.zero_add]

/-- A file of `2 ^ 31` bytes with a chain of one cluster is loaded that far and reported as incomplete. -/
theorem fatxLoadFromDisk_loads_file_large :
    ∃ bound, ∀ rounds ≥ bound,
      fatxLoadFromDisk oneDrive (fun _ => 0) (fun _ => 0) onePartition rounds ⟨fun _ => 0, 1, 2 ^ 31, 0, 0⟩
          (fun _ => 0) =
        some (false, ⟨fun _ => 0, 1, 2 ^ 31, 0x4000, 0⟩,
          Mem.write (fun _ => 0) 0 0x4000 (chainByte oneDrive onePartition [1])) :=
  fatxLoadFromDisk_loads_file onePartition_opened ⟨fun _ => 0, 1, 2 ^ 31, 0, 0⟩ onePartition_chain
    (by decide) (fun _ => 0) (fun _ => 0) fun _ => 0

end Cromwell.Fatx
