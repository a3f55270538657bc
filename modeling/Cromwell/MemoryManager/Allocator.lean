/-
Module: Cromwell.MemoryManager.Allocator
Layer: Model
Purpose: The cluster allocator of `lib/misc/BootLibrary.c`. One byte table in cluster 0 of the arena says
  for every 16K cluster whether it is free; three block encodings share that table and none stores its
  length. `malloc` adds a rounding and an 8-byte header over `t_malloc`, `free` reads the header back.
Imports: Cromwell.Lib.ByteMemory
Trusted boundary: reviewed against src/lib/misc/BootLibrary.c and src/include/memory_layout.h
Main exports: Heap, memoryManagementInitialization, tMalloc, tFree, malloc, free
-/
import Cromwell.Lib.ByteMemory

namespace Cromwell.MemoryManager

open ByteMemory

/-- `MEMORYMANAGERSTART`. -/
def memoryManagerStart : Nat := 0x02A00000

/-- `MEMORYMANAGERSIZE`. -/
def memoryManagerSize : Nat := 0x039FFFFF - memoryManagerStart

/-- The memory and the one global of the allocator, `MemoryManagerStartAddress`. -/
structure Heap where
  mem : Mem
  memoryManagerStartAddress : Nat

namespace Heap

/-- Address of the table byte of a cluster. -/
def entry (h : Heap) (i : Nat) : Nat := h.memoryManagerStartAddress + i

/-- `memsmall[i]`, the table byte of cluster `i`. -/
def memsmall (h : Heap) (i : Nat) : UInt8 := h.mem (h.entry i)

/-- `MemoryManagerStartAddress + counter*0x4000`. -/
def clusterAddress (h : Heap) (counter : Nat) : Nat :=
  u32 (h.memoryManagerStartAddress + counter * 0x4000)

end Heap

/-- `MemoryManagementInitialization`: the first page of the arena becomes an empty table whose own
    cluster is reserved. The length argument is not used by the source. -/
def memoryManagementInitialization (mem : Mem) (pvStartAddress _dwTotalMemoryAllocLength : Nat) : Heap :=
  { mem := (mem.fill pvStartAddress 0x4000 0).store pvStartAddress 0xff
    memoryManagerStartAddress := pvStartAddress }

/-- The values of `counter` in `for (counter=1;counter<0x400;counter++)`. -/
def counters : List Nat := List.range' 1 0x3ff

/-- The number of clusters the third size class asks for. -/
def needsectory (size : Nat) : Nat :=
  ((size &&& 0xffffc000) + 0x4000) / 0x4000

/-- `t_malloc`. The result is the block address, or 0 when nothing was found. -/
def tMalloc (h : Heap) (size : Nat) : Nat × Heap :=
  if size < 0x4000 + 1 then
    match counters.find? fun counter => h.memsmall counter == 0 with
    | some counter =>
        (h.clusterAddress counter, { h with mem := h.mem.store (h.entry counter) 0xAA })
    | none => (0, h)
  else if size < 0x10000 + 1 then
    match counters.find? fun counter => h.mem.loadWord (h.entry counter) == 0 with
    | some counter =>
        (h.clusterAddress counter, { h with mem := h.mem.storeWord (h.entry counter) 0xB8BADCFE })
    | none => (0, h)
  else if size < 5 * 1024 * 1024 + 1 then
    match counters.find? fun counter =>
      (List.range (needsectory size)).all fun blockcount => h.memsmall (counter + blockcount) == 0 with
    | some counter =>
        let mem := h.mem.fill (h.entry counter) (needsectory size) 0xFF
        let mem := mem.store (h.entry counter) 0xBB
        let mem := mem.store (h.entry (counter + 1)) 0xCC
        let mem := mem.store (h.entry (counter + needsectory size - 2)) 0xCC
        let mem := mem.store (h.entry (counter + needsectory size - 1)) 0xBB
        (h.clusterAddress counter, { h with mem := mem })
    | none => (0, h)
  else (0, h)

/-- The scan of `t_free` over a block of the third class: `fuel` is what is left of
    `for (counter=temp;counter<0x400;counter++)`. -/
def freeScan (base : Nat) : Nat → Nat → Mem → Mem
  | 0, _, mem => mem
  | fuel + 1, counter, mem =>
      if mem (base + counter) = 0xCC ∧ mem (base + (counter + 1)) = 0xBB then
        (mem.store (base + counter) 0).store (base + (counter + 1)) 0
      else
        freeScan base fuel (counter + 1) (mem.store (base + counter) 0)

/-- `t_free`. -/
def tFree (h : Heap) (ptr : Nat) : Heap :=
  let temp := u32 (ptr + 2 ^ 32 - h.memoryManagerStartAddress)
  if temp &&& 0xffffc000 = temp then
    let temp := temp / 0x4000
    if h.memsmall temp = 0xAA then
      { h with mem := h.mem.store (h.entry temp) 0 }
    else if h.mem.loadWord (h.entry temp) = 0xB8BADCFE then
      { h with mem := h.mem.fill (h.entry temp) 4 0 }
    else if h.mem.loadWord (h.entry temp) = 0xFFFFCCBB then
      { h with mem := freeScan h.memoryManagerStartAddress (0x400 - temp) temp h.mem }
    else h
  else h

/-- The size `malloc` asks `t_malloc` for. -/
def paddedSize (size : Nat) : Nat := u32 (size + 0x200) &&& 0xffffff00

/-- The pointer `malloc` makes of the block address. -/
def userPointer (block : Nat) : Nat := u32 (block + 0x100) &&& 0xffffff00

/-- `malloc`. The header is written whether or not `t_malloc` found a block. -/
def malloc (h : Heap) (size : Nat) : Nat × Heap :=
  let (block, h) := tMalloc h (paddedSize size)
  let tempmalloc := userPointer block
  (tempmalloc,
    { h with mem := (h.mem.storeWord (tempmalloc - 8) block).storeWord (tempmalloc - 4) 0x1234567 })

/-- `free`. -/
def free (h : Heap) (ptr : Nat) : Heap :=
  if ptr = 0 then h
  else if h.mem.loadWord (ptr - 4) ≠ 0x1234567 then h
  else tFree h (h.mem.loadWord (ptr - 8))

end Cromwell.MemoryManager
