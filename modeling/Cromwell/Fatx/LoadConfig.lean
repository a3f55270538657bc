/-
Module: Cromwell.Fatx.LoadConfig
Layer: Model
Purpose: `LoadConfigFatX` and the blocks that it allocates: the partition and its chain table, the buffer of the file,
  an entry that is replaced at once, and the entries of the list. Only a partition that does not open leaves the
  heap as the list says.
Imports: Cromwell.Config.BootParser, Cromwell.Fatx.Geometry, Cromwell.Fatx.Walkers, Cromwell.MemoryManager.Client
Trusted boundary: reviewed against src/boot/LoadLinux.c, src/fs/fatx/BootFATX.c and src/lib/misc/BootParser.h
Main exports: Surroundings, loadFATXFile, loadConfigFatX, OnlyNodes, StoreFormatted, loadConfigFatX_releases_iff
-/
import Cromwell.Config.BootParser
import Cromwell.Fatx.Geometry
import Cromwell.Fatx.Walkers
import Cromwell.MemoryManager.Client

namespace Cromwell.Fatx

open ByteMemory
open Cromwell.Config (CONFIGENTRY parseConfig)
open Cromwell.MemoryManager (Block ClientHeap)

/-- `SECTOR_STORE`. -/
def sectorStore : Nat := 0x0055F400

/-- `STORE_SIZE`. -/
def storeSize : Nat := 0x131F00000

/-- `sizeof(FATXPartition)`. -/
def sizeofFATXPartition : Nat := 44

/-- `sizeof(CONFIGENTRY)`. -/
def sizeofConfigentry : Nat := 8232

/-- "/linuxboot.cfg" -/
def linuxbootCfg : List UInt8 := [0x2f, 0x6c, 0x69, 0x6e, 0x75, 0x78, 0x62, 0x6f, 0x6f, 0x74, 0x2e, 0x63, 0x66, 0x67]

/-- "/debian" -/
def debian : List UInt8 := [0x2f, 0x64, 0x65, 0x62, 0x69, 0x61, 0x6e]

/-- "/debian/linuxboot.cfg" -/
def debianLinuxbootCfg : List UInt8 := debian ++ linuxbootCfg

/-- What the loader runs on: the disk, what local variables and the memory around the chain table hold, how many rounds a
    loop over a chain is followed for, and how far behind its address the text of a file can be read and written. -/
structure Surroundings where
  drive : Drive
  partitionInfo : Mem
  ba : Mem
  stack : Nat → Mem
  clusterData : Mem
  beside : Int → UInt8
  rounds : Nat
  readable : Nat
  limit : Nat

/-- The heap, with the memory, and `fileinfo`. -/
structure LoaderState where
  heap : ClientHeap
  fileinfo : FATXFILEINFO

/-- An open partition, with the blocks of its structure and of its chain table. -/
structure OpenPartition where
  partition : FATXPartition
  block : Block
  words : Block

variable (w : Surroundings)

/-! ### The loader

There is no result when the run is not followed to its end: when a chain is longer than the rounds, when the parser
leaves the text, and when `malloc` has no block, as the address that it returns then is not `NULL` but lies in front
of the arena. -/

/-- `OpenFATXPartition(0,SECTOR_STORE,STORE_SIZE)`. -/
def openStore (s : LoaderState) : Option (Option OpenPartition × LoaderState) :=
  match openFATXPartition w.drive w.partitionInfo w.ba (some w.beside) sectorStore storeSize with
  | none => some (none, s)
  | some partition => do
      let (block, heap) ← s.heap.malloc sizeofFATXPartition
      let (words, heap) ← heap.malloc partition.tableSize
      some (some ⟨partition, block, words⟩, { s with heap := heap })

/-- `LoadFATXFile`: the block of the buffer when the file was loaded. -/
def loadFATXFile (partition : FATXPartition) (filename : List UInt8) (s : LoaderState) :
    Option (Option Block × LoaderState) := do
  let (found, _, fileinfo) ←
    fatxFindFile w.drive w.ba w.stack partition w.rounds filename fatxRootFatCluster s.fileinfo
  if found then
    let (block, heap) ← s.heap.malloc fileinfo.fileSize
    let fileinfo := { fileinfo with buffer := block.ptr }
    let memory := heap.heap.mem.fill fileinfo.buffer fileinfo.fileSize 0
    let (loaded, fileinfo, memory) ←
      fatxLoadFromDisk w.drive w.ba w.clusterData partition w.rounds fileinfo memory
    some (if loaded then some block else none, ⟨heap.withMem memory, fileinfo⟩)
  else some (none, { s with fileinfo := fileinfo })

/-- The blocks of the entries that `ParseConfig` allocates. -/
def mallocEntries : List CONFIGENTRY → ClientHeap → Option (List (Block × CONFIGENTRY) × ClientHeap)
  | [], heap => some ([], heap)
  | entry :: entries, heap => do
      let (block, heap) ← heap.malloc sizeofConfigentry
      let (nodes, heap) ← mallocEntries entries heap
      some ((block, entry) :: nodes, heap)

/-- `CloseFATXPartition`. -/
def closeFATXPartition (opened : OpenPartition) (heap : ClientHeap) : ClientHeap :=
  (heap.free opened.words).free opened.block

/-- What follows a file that was loaded: `config` is allocated, and replaced by what `ParseConfig` returns. -/
def parseFile (szPath : Option (List UInt8)) (buffer : Block) (s : LoaderState) :
    Option (List (Block × CONFIGENTRY) × LoaderState) := do
  let (_, heap) ← s.heap.malloc sizeofConfigentry
  match parseConfig w.limit szPath (heap.heap.mem.bytesFrom s.fileinfo.buffer w.readable) s.fileinfo.fileSize with
  | .error _ => none
  | .ok (entries, text) =>
      let memory := heap.heap.mem.write s.fileinfo.buffer w.readable fun i => text.getD i 0
      let (nodes, heap) ← mallocEntries entries (heap.withMem memory)
      some (nodes, ⟨heap.free buffer, s.fileinfo⟩)

/-- The loop that sets `bootType`. -/
def bootTypeFatx (nodes : List (Block × CONFIGENTRY)) : List (Block × CONFIGENTRY) :=
  nodes.map fun node => (node.1, { node.2 with bootType := .fatx })

/-- `LoadConfigFatX`: the nodes of the list with their blocks; no nodes is `NULL`. -/
def loadConfigFatX (s : LoaderState) : Option (List (Block × CONFIGENTRY) × LoaderState) := do
  let (opened, s) ← openStore w s
  match opened with
  | none => some ([], s)
  | some opened =>
      let (buffer, s) ← loadFATXFile w opened.partition linuxbootCfg s
      match buffer with
      | some buffer =>
          -- Root of E has a linuxboot.cfg in
          let (nodes, s) ← parseFile w none buffer s
          some (bootTypeFatx nodes, s)
      | none =>
          let (buffer, s) ← loadFATXFile w opened.partition debianLinuxbootCfg s
          match buffer with
          | some buffer =>
              -- Try in /debian on E
              let (nodes, s) ← parseFile w (some debian) buffer s
              some (bootTypeFatx nodes, { s with heap := closeFATXPartition opened s.heap })
          | none => some ([], s)

/-! ### What the heap should hold -/

/-- The live blocks afterwards are those from before and the nodes of the list. -/
def OnlyNodes (before after : ClientHeap) (nodes : List (Block × CONFIGENTRY)) : Prop :=
  after.live.Perm (nodes.map (·.1) ++ before.live)

/-- There are more blocks than those from before and the nodes. -/
def Leaves (before after : ClientHeap) (nodes : List (Block × CONFIGENTRY)) : Prop :=
  before.live.length + nodes.length < after.live.length

theorem Leaves.not_onlyNodes {before after : ClientHeap} {nodes : List (Block × CONFIGENTRY)}
    (h : Leaves before after nodes) : ¬ OnlyNodes before after nodes := by
  intro honly
  have hlength := honly.length_eq
  rw [List.length_append, List.length_map, Nat.add_comm] at hlength
  exact absurd hlength (Nat.ne_of_gt h)

theorem leaves_bootTypeFatx {before after : ClientHeap} {nodes : List (Block × CONFIGENTRY)} :
    Leaves before after (bootTypeFatx nodes) ↔ Leaves before after nodes := by
  rw [Leaves, Leaves, bootTypeFatx, List.length_map]

/-! ### What the calls allocate -/

variable {w : Surroundings} {s s' : LoaderState}

theorem length_malloc {heap heap' : ClientHeap} {size : Nat} {block : Block}
    (h : heap.malloc size = some (block, heap')) : heap'.live.length = heap.live.length + 1 := by
  rw [ClientHeap.malloc_live h, List.length_cons]

/-- An open partition has two blocks. -/
theorem openStore_some {partition : FATXPartition} {opened : Option OpenPartition}
    (h : openFATXPartition w.drive w.partitionInfo w.ba (some w.beside) sectorStore storeSize = some partition)
    (hopen : openStore w s = some (opened, s')) :
    (∃ block words, opened = some ⟨partition, block, words⟩) ∧
      s'.heap.live.length = s.heap.live.length + 2 := by
  rw [openStore, h] at hopen
  simp only [Option.bind_eq_bind, Option.bind_eq_some_iff] at hopen
  obtain ⟨⟨block, heap⟩, hblock, ⟨words, heap'⟩, hwords, hopen⟩ := hopen
  cases hopen
  refine ⟨⟨block, words, rfl⟩, ?_⟩
  dsimp only
  rw [length_malloc hwords, length_malloc hblock]

/-- `LoadFATXFile` gives nothing back; the buffer of a file that was loaded is a new block. -/
theorem loadFATXFile_live {partition : FATXPartition} {filename : List UInt8} {buffer : Option Block}
    (h : loadFATXFile w partition filename s = some (buffer, s')) :
    s.heap.live.length ≤ s'.heap.live.length ∧
      ∀ block, buffer = some block → s.heap.live.length < s'.heap.live.length := by
  rw [loadFATXFile] at h
  simp only [Option.bind_eq_bind, Option.bind_eq_some_iff] at h
  obtain ⟨⟨found, path, fileinfo⟩, -, h⟩ := h
  split at h
  case isTrue =>
    simp only [Option.bind_eq_some_iff] at h
    obtain ⟨⟨block, heap⟩, hmalloc, ⟨loaded, fileinfo', memory⟩, -, h⟩ := h
    cases h
    have hlength : (heap.withMem memory).live.length = s.heap.live.length + 1 := by
      rw [ClientHeap.withMem_live, length_malloc hmalloc]
    exact ⟨by rw [hlength]; exact Nat.le_succ _, fun _ _ => by rw [hlength]; exact Nat.lt_succ_self _⟩
  case isFalse =>
    cases h
    exact ⟨Nat.le_refl _, fun block hblock => by cases hblock⟩

/-- The nodes are new blocks. -/
theorem mallocEntries_live {entries : List CONFIGENTRY} {heap heap' : ClientHeap} {nodes : List (Block × CONFIGENTRY)}
    (h : mallocEntries entries heap = some (nodes, heap')) :
    heap'.live.length = heap.live.length + nodes.length := by
  induction entries generalizing heap nodes with
  | nil =>
      cases h
      rfl
  | cons entry entries ih =>
      rw [mallocEntries] at h
      simp only [Option.bind_eq_bind, Option.bind_eq_some_iff] at h
      obtain ⟨⟨block, heap₁⟩, hmalloc, ⟨rest, heap₂⟩, hrest, h⟩ := h
      cases h
      have hnodes : heap₂.live.length = heap₁.live.length + rest.length := ih hrest
      rw [hnodes, length_malloc hmalloc, List.length_cons, Nat.add_right_comm, Nat.add_assoc]

/-- After a file the first entry that was allocated stays, and only the buffer is given back. -/
theorem parseFile_live {szPath : Option (List UInt8)} {buffer : Block} {nodes : List (Block × CONFIGENTRY)}
    (h : parseFile w szPath buffer s = some (nodes, s')) :
    s.heap.live.length + nodes.length ≤ s'.heap.live.length := by
  rw [parseFile] at h
  simp only [Option.bind_eq_bind, Option.bind_eq_some_iff] at h
  obtain ⟨⟨block, heap⟩, hmalloc, h⟩ := h
  split at h
  case h_1 => cases h
  case h_2 entries text hparse =>
    obtain ⟨⟨nodes', heap'⟩, hentries, h⟩ := Option.bind_eq_some_iff.mp h
    cases h
    have hnodes := mallocEntries_live hentries
    rw [ClientHeap.withMem_live, length_malloc hmalloc] at hnodes
    have hbuffer := heap'.length_le_free buffer
    dsimp only
    omega

/-- When the partition opens, blocks stay behind: the entry that `ParseConfig` replaces, or the partition and the table
    when there is no file. -/
theorem loadConfigFatX_leaves {partition : FATXPartition} {nodes : List (Block × CONFIGENTRY)}
    (hopen : openFATXPartition w.drive w.partitionInfo w.ba (some w.beside) sectorStore storeSize = some partition)
    (h : loadConfigFatX w s = some (nodes, s')) : Leaves s.heap s'.heap nodes := by
  rw [loadConfigFatX] at h
  simp only [Option.bind_eq_bind, Option.bind_eq_some_iff] at h
  obtain ⟨⟨opened, s₁⟩, hstore, h⟩ := h
  obtain ⟨⟨block, words, rfl⟩, hopened⟩ := openStore_some hopen hstore
  obtain ⟨⟨buffer₁, s₂⟩, hfirst, h⟩ := Option.bind_eq_some_iff.mp h
  obtain ⟨hgrows₁, hbuffer₁⟩ := loadFATXFile_live hfirst
  cases buffer₁ with
  | some buffer =>
      obtain ⟨⟨nodes', s₃⟩, hparse, h⟩ := Option.bind_eq_some_iff.mp h
      cases h
      have hnodes : s₂.heap.live.length + nodes'.length ≤ s₃.heap.live.length := parseFile_live hparse
      rw [leaves_bootTypeFatx, Leaves]
      dsimp only at hopened hgrows₁ ⊢
      omega
  | none =>
      obtain ⟨⟨buffer₂, s₃⟩, hsecond, h⟩ := Option.bind_eq_some_iff.mp h
      obtain ⟨hgrows₂, hbuffer₂⟩ := loadFATXFile_live hsecond
      cases buffer₂ with
      | some buffer =>
          obtain ⟨⟨nodes', s₄⟩, hparse, h⟩ := Option.bind_eq_some_iff.mp h
          cases h
          have hnodes := parseFile_live hparse
          have hnew : s₂.heap.live.length < s₃.heap.live.length := hbuffer₂ buffer rfl
          have hwords := s₄.heap.length_le_free words
          have hblock := (s₄.heap.free words).length_le_free block
          rw [leaves_bootTypeFatx, Leaves, closeFATXPartition]
          dsimp only at hopened hgrows₁ hnodes ⊢
          omega
      | none =>
          cases h
          rw [Leaves, List.length_nil]
          dsimp only at hopened hgrows₁ hgrows₂ ⊢
          omega

/-! ### When the partition opens -/

/-- The header of the partition can be read, and it begins with "FATX". -/
def StoreFormatted (drive : Drive) : Prop :=
  (∀ k < 8, (drive (sectorStore + k)).isSome) ∧
    ∃ bytes, drive sectorStore = some bytes ∧ ∀ i < 4, bytes i = Mem.wordByte fatxPartitionMagic i

/-- A sector that cannot be read ends the loop without a count. -/
theorem rawReadLoop_failed {drive : Drive} (rounds : Nat) {sector byteLen byteRead k : Nat} {buf : Mem}
    (hrounds : byteLen ≤ rounds) (hk : 512 * k < byteLen) (hnone : drive (u32 (sector + k)) = none) :
    (rawReadLoop drive rounds sector byteLen byteRead buf).1 = 0 := by
  induction rounds generalizing sector byteLen byteRead k buf with
  | zero => exact absurd hk (by omega)
  | succ rounds ih =>
      rw [rawReadLoop, if_neg (by omega)]
      dsimp only
      cases hread : drive (u32 sector) with
      | none => rfl
      | some bytes =>
          cases k with
          | zero =>
              rw [Nat.add_zero, hread] at hnone
              cases hnone
          | succ k =>
              rw [if_neg (by omega)]
              apply ih (by omega) (show 512 * k < byteLen - 512 by omega)
              rw [show sector + 1 + k = sector + (k + 1) by omega]
              exact hnone

/-- A read from a sector boundary comes back. -/
theorem fatxRawRead_returns (drive : Drive) (ba buf : Mem) (sector : Nat) {byteOffset : Nat} (byteLen : Nat)
    (hoff : byteOffset % 512 = 0) : ∃ result, fatxRawRead drive ba sector byteOffset byteLen buf = some result := by
  rw [fatxRawRead]
  dsimp only
  split
  case isTrue => exact ⟨_, rfl⟩
  case isFalse =>
    rw [if_neg (not_not.mpr hoff)]
    exact ⟨_, rfl⟩

/-- The header as the driver reads it. -/
theorem read_header_iff (drive : Drive) (ba buf : Mem) :
    (∃ header, fatxRawRead drive ba sectorStore 0 fatxPartitionHeadersize buf = some header ∧
      header.1 = fatxPartitionHeadersize ∧ header.2.loadWord 0 = fatxPartitionMagic) ↔ StoreFormatted drive := by
  have hsector : ∀ k < 8, u32 (sectorStore + k) = sectorStore + k := by
    intro k hk
    rw [sectorStore]
    exact u32_of_lt (by omega)
  by_cases hread : ∀ k < 8, (drive (sectorStore + k)).isSome
  · have hcall : fatxRawRead drive ba sectorStore 0 fatxPartitionHeadersize buf =
        some (fatxPartitionHeadersize,
          buf.write 0 fatxPartitionHeadersize (sectorByte drive (sectorStore + 0 / 512))) := by
      apply fatxRawRead_aligned ba (by decide)
      intro k hk
      rw [fatxPartitionHeadersize] at hk
      rw [Nat.zero_div, Nat.add_zero, hsector _ (by omega)]
      exact hread _ (by omega)
    obtain ⟨bytes, hbytes⟩ := Option.isSome_iff_exists.mp (hread 0 (by omega))
    have hfirst : ∀ i < 4, sectorByte drive (sectorStore + 0 / 512) i = bytes i := by
      intro i hi
      rw [sectorByte, Nat.zero_div, Nat.div_eq_of_lt (by omega), hsector 0 (by omega), hbytes]
      exact congrArg bytes (Nat.mod_eq_of_lt (by omega))
    have hmagic : (buf.write 0 fatxPartitionHeadersize (sectorByte drive (sectorStore + 0 / 512))).loadWord 0 =
        fatxPartitionMagic ↔ ∀ i < 4, bytes i = Mem.wordByte fatxPartitionMagic i := by
      rw [Mem.loadWord_eq_iff (by decide)]
      refine forall₂_congr fun i hi => ?_
      rw [Mem.write_of_mem (Nat.lt_of_lt_of_le hi (by decide)), hfirst i hi]
    rw [hcall]
    constructor
    · rintro ⟨header, hheader, -, hword⟩
      cases hheader
      exact ⟨hread, bytes, hbytes, hmagic.mp hword⟩
    · rintro ⟨-, bytes', hbytes', hword⟩
      rw [Nat.add_zero] at hbytes
      rw [hbytes] at hbytes'
      cases hbytes'
      exact ⟨_, rfl, rfl, hmagic.mpr hword⟩
  · constructor
    · rintro ⟨header, hheader, hsize, -⟩
      push Not at hread
      obtain ⟨k, hk, hnone⟩ := hread
      have hfailed : (rawReadLoop drive fatxPartitionHeadersize sectorStore fatxPartitionHeadersize 0 buf).1 = 0 :=
        rawReadLoop_failed _ (Nat.le_refl _) (show 512 * k < 4096 by omega)
          (by rw [hsector k hk]; exact Option.not_isSome_iff_eq_none.mp hnone)
      have hloop : fatxRawRead drive ba sectorStore 0 fatxPartitionHeadersize buf =
          some (rawReadLoop drive fatxPartitionHeadersize sectorStore fatxPartitionHeadersize 0 buf) := rfl
      rw [hloop] at hheader
      cases hheader
      rw [hfailed] at hsize
      cases hsize
    · exact fun h => absurd h.1 hread

/-- The partition opens exactly when it is formatted. -/
theorem openStore_iff (w : Surroundings) :
    (∃ partition, openFATXPartition w.drive w.partitionInfo w.ba (some w.beside) sectorStore storeSize =
      some partition) ↔ StoreFormatted w.drive := by
  rw [← read_header_iff w.drive w.ba w.partitionInfo]
  constructor
  · rintro ⟨partition, h⟩
    unfold openFATXPartition at h
    obtain ⟨header, hheader, h⟩ := Option.bind_eq_some_iff.mp h
    split at h
    case isTrue => cases h
    case isFalse hsize =>
      split at h
      case isTrue => cases h
      case isFalse hmagic => exact ⟨header, hheader, not_not.mp hsize, not_not.mp hmagic⟩
  · rintro ⟨header, hheader, hsize, hmagic⟩
    unfold openFATXPartition
    rw [hheader]
    simp only [Option.bind_eq_bind, Option.bind_some]
    rw [if_neg (not_not.mpr hsize), if_neg (not_not.mpr hmagic)]
    obtain ⟨table, htable⟩ := fatxRawRead_returns w.drive w.ba (fun i => w.beside i) sectorStore
      (chainTableSize (u32 (storeSize / 0x4000)) (if u32 (storeSize / 0x4000) ≥ 0xfff4 then 4 else 2))
      (show fatxPartitionHeadersize % 512 = 0 from rfl)
    rw [htable]
    exact ⟨_, rfl⟩

/-! ### The leak -/

/-- `LoadConfigFatX` adds the nodes of its list to the live blocks and nothing else exactly when partition E is not
    formatted. It then returns `NULL` and allocates nothing; otherwise blocks stay behind, on every path. -/
theorem loadConfigFatX_releases_iff (w : Surroundings) (s : LoaderState) :
    (¬ StoreFormatted w.drive → loadConfigFatX w s = some ([], s)) ∧
      ∀ nodes s', loadConfigFatX w s = some (nodes, s') →
        (OnlyNodes s.heap s'.heap nodes ↔ ¬ StoreFormatted w.drive) := by
  have hclosed : ¬ StoreFormatted w.drive → loadConfigFatX w s = some ([], s) := by
    intro hformatted
    have hnone : openFATXPartition w.drive w.partitionInfo w.ba (some w.beside) sectorStore storeSize = none :=
      Option.eq_none_iff_forall_ne_some.mpr fun partition h => hformatted ((openStore_iff w).mp ⟨partition, h⟩)
    rw [loadConfigFatX, openStore, hnone]
    rfl
  refine ⟨hclosed, fun nodes s' h => ⟨fun honly hformatted => ?_, fun hformatted => ?_⟩⟩
  · obtain ⟨partition, hopen⟩ := (openStore_iff w).mpr hformatted
    exact (loadConfigFatX_leaves hopen h).not_onlyNodes honly
  · rw [hclosed hformatted] at h
    cases h
    exact List.Perm.refl _

/-- A disk with a formatted partition E and no files. -/
def emptyStore : Drive := fun sector =>
  some fun k => if sector = sectorStore then [0x46, 0x41, 0x54, 0x58].getD k 0 else 0

/-- The loader on such a disk. -/
def emptyStoreLoader : Surroundings :=
  { drive := emptyStore
    partitionInfo := fun _ => 0
    ba := fun _ => 0
    stack := fun _ _ => 0
    clusterData := fun _ => 0
    beside := fun _ => 0
    rounds := 1
    readable := 0
    limit := 0 }

/-- The loader before anything was allocated. -/
def freshLoader : LoaderState := ⟨ClientHeap.initial fun _ => 0, ⟨fun _ => 0, 0, 0, 0, 0⟩⟩

theorem emptyStore_formatted : StoreFormatted emptyStore := by
  refine ⟨fun _ _ => rfl, _, rfl, ?_⟩
  intro i hi
  rw [if_pos rfl]
  interval_cases i <;> decide

/-- The numbers of partition E. -/
theorem store_sizes {drive : Drive} {partitionInfo ba : Mem} {heap : Option (Int → UInt8)} {partition : FATXPartition}
    (h : openFATXPartition drive partitionInfo ba heap sectorStore storeSize = some partition) :
    partition.clusterCount = 313280 ∧ partition.chainMapEntrySize = 4 ∧ partition.tableSize = 0x132000 := by
  have hp := openFATXPartition_opened h
  obtain ⟨-, hsize, -⟩ := openFATXPartition_table h
  have hcount : partition.clusterCount = 313280 := by
    rw [hp.clusterCount, hsize]
    decide
  have hentry : partition.chainMapEntrySize = 4 := by
    rw [hp.chainMapEntrySize, hcount]
    decide
  refine ⟨hcount, hentry, ?_⟩
  rw [FATXPartition.tableSize, hcount, hentry]
  decide

/-- There is nothing in the root directory. -/
theorem emptyStore_search {partition : FATXPartition}
    (h : openFATXPartition emptyStore (fun _ => 0) (fun _ => 0) (some fun _ => 0) sectorStore storeSize =
      some partition) (name : List UInt8) :
    searchClusters emptyStore (fun _ => 0) partition name 1 fatxRootFatCluster (fun _ => 0) =
      some .endOfDirectory := by
  have hp := openFATXPartition_opened h
  obtain ⟨hstart, -⟩ := openFATXPartition_table h
  obtain ⟨hcount, hentry, -⟩ := store_sizes h
  have haddress : partition.cluster1Address = 0x133000 := by
    rw [hp.cluster1Address, hcount, hentry]
    decide
  have hroot : InRange emptyStore partition fatxRootFatCluster :=
    ⟨Int.le_refl _, by rw [hcount]; decide, fun _ _ => rfl⟩
  have hbyte : clusterByte emptyStore partition fatxRootFatCluster 0 = 0 := by
    have hsector : clusterSector partition fatxRootFatCluster (0 / 512) = 0x55FD98 := by
      rw [clusterSector, hstart, haddress]
      decide
    rw [clusterByte, hsector]
    rfl
  have hlast : checkForLastDirectoryEntry (fun k => Mem.write (fun _ => 0) 0 0x4000
      (clusterByte emptyStore partition fatxRootFatCluster) (0 * fatxDirectoryentrySize + k)) = true := by
    have hfirst : Mem.write (fun _ => 0) 0 0x4000 (clusterByte emptyStore partition fatxRootFatCluster) (0 + 0) = 0 :=
      (Mem.write_of_mem (by decide)).trans hbyte
    rw [checkForLastDirectoryEntry, show 0 * fatxDirectoryentrySize + 0 = 0 + 0 from rfl, hfirst]
    rfl
  have hscan : scanEntries name (Mem.write (fun _ => 0) 0 0x4000
      (clusterByte emptyStore partition fatxRootFatCluster)) (255 + 1) 0 = .endOfDirectory := by
    rw [scanEntries]
    dsimp only
    rw [if_pos hlast]
  rw [searchClusters, if_neg (by decide), loadFATXCluster_eq hp _ hroot, hp.clusterSize]
  simp only [Option.bind_eq_bind, Option.bind_some]
  rw [show 0x4000 / fatxDirectoryentrySize = 255 + 1 from rfl, hscan]

/-- A file is not found in an empty directory. -/
theorem fatxFindFileIn_empty {drive : Drive} {ba : Mem} {stack : Nat → Mem} {partition : FATXPartition} {rounds : Nat}
    {clusterId : Int} (hsearch : ∀ name n,
      searchClusters drive ba partition name rounds clusterId (stack n) = some .endOfDirectory)
    (filename : List UInt8) (fileinfo : FATXFILEINFO) :
    fatxFindFileIn drive ba stack partition rounds filename clusterId fileinfo = some (false, fileinfo) := by
  rw [fatxFindFileIn]
  split
  case h_1 =>
    rw [hsearch]
    split <;> rfl
  case h_2 =>
    rw [hsearch]
    split <;> rfl

/-- A partition E without files leaves the partition and its chain table behind. -/
theorem empty_store_leaks :
    ∃ s', loadConfigFatX emptyStoreLoader freshLoader = some ([], s') ∧
      ¬ OnlyNodes freshLoader.heap s'.heap [] := by
  obtain ⟨partition, hopen⟩ := (openStore_iff emptyStoreLoader).mpr emptyStore_formatted
  have hload : ∀ filename s, loadFATXFile emptyStoreLoader partition filename s = some (none, s) := by
    intro filename s
    have hfind : fatxFindFileIn emptyStore (fun _ => 0) (fun _ _ => 0) partition 1
        ((convertSlashes filename).dropWhile (· == 0x2f)) fatxRootFatCluster s.fileinfo = some (false, s.fileinfo) :=
      fatxFindFileIn_empty (fun name _ => emptyStore_search hopen name) _ _
    rw [loadFATXFile, fatxFindFile]
    simp only [emptyStoreLoader] at *
    rw [hfind]
    rfl
  have htable := (store_sizes hopen).2.2
  have hblock : freshLoader.heap.malloc sizeofFATXPartition =
      some (⟨0x02A04100, 44, 1, 1⟩, freshLoader.heap.afterMalloc sizeofFATXPartition) :=
    ClientHeap.malloc_eq_some_iff.mpr ⟨by decide +kernel, by decide, by decide, rfl⟩
  have hwords : (freshLoader.heap.afterMalloc sizeofFATXPartition).malloc partition.tableSize =
      some (⟨0x02A08100, 0x132000, 2, 77⟩,
        (freshLoader.heap.afterMalloc sizeofFATXPartition).afterMalloc partition.tableSize) := by
    rw [htable]
    exact ClientHeap.malloc_eq_some_iff.mpr ⟨by decide +kernel, by decide, by decide, rfl⟩
  have hstore : openStore emptyStoreLoader freshLoader =
      some (some ⟨partition, ⟨0x02A04100, 44, 1, 1⟩, ⟨0x02A08100, 0x132000, 2, 77⟩⟩, { freshLoader with
        heap := (freshLoader.heap.afterMalloc sizeofFATXPartition).afterMalloc partition.tableSize }) := by
    rw [openStore, hopen]
    simp only [Option.bind_eq_bind, hblock, hwords, Option.bind_some]
  have hcall : loadConfigFatX emptyStoreLoader freshLoader = some ([], { freshLoader with
      heap := (freshLoader.heap.afterMalloc sizeofFATXPartition).afterMalloc partition.tableSize }) := by
    rw [loadConfigFatX, hstore]
    simp only [Option.bind_eq_bind, Option.bind_some]
    rw [hload]
    simp only [Option.bind_some]
    rw [hload]
    rfl
  exact ⟨_, hcall, (loadConfigFatX_leaves hopen hcall).not_onlyNodes⟩

end Cromwell.Fatx
