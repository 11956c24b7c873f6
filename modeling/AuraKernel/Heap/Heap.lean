import AuraKernel.Physical.Pmm

namespace AuraKernel
namespace Heap

open Machine
open Physical

/-!
# The kernel heap

`kernel/core/heap.c` threads two doubly linked lists through the blocks it
hands out: all blocks of a region in address order, and the free blocks in the
order they were freed.  The headers are in the memory the heap manages, so a
block is an address here and its fields are words of memory.  The definitions
follow the C functions statement by statement; `kfree` coalesces to the right
and to the left with the same statements, which are `absorb` here.
-/

/-- `HEADER_SIZE`, which is `sizeof(block_t)` -/
def headerSize : Nat := 48

def minSplit : Nat := 32

/-! ## The fields of `struct block` -/

namespace Block

def size (mem : Mem) (blk : Nat) : Nat := mem.load64 blk
def used (mem : Mem) (blk : Nat) : UInt8 := mem (blk + 8)
def next (mem : Mem) (blk : Nat) : Nat := mem.load64 (blk + 16)
def prev (mem : Mem) (blk : Nat) : Nat := mem.load64 (blk + 24)
def nextFree (mem : Mem) (blk : Nat) : Nat := mem.load64 (blk + 32)
def prevFree (mem : Mem) (blk : Nat) : Nat := mem.load64 (blk + 40)

def setSize (blk value : Nat) (mem : Mem) : Mem := mem.store64 blk value
def setUsed (blk : Nat) (value : UInt8) (mem : Mem) : Mem := mem.store8 (blk + 8) value
def setNext (blk value : Nat) (mem : Mem) : Mem := mem.store64 (blk + 16) value
def setPrev (blk value : Nat) (mem : Mem) : Mem := mem.store64 (blk + 24) value
def setNextFree (blk value : Nat) (mem : Mem) : Mem := mem.store64 (blk + 32) value
def setPrevFree (blk value : Nat) (mem : Mem) : Mem := mem.store64 (blk + 40) value

/-- `if (blk) blk->prev = value` -/
def setPrevOf (blk value : Nat) (mem : Mem) : Mem :=
  if blk ≠ 0 then setPrev blk value mem else mem

/-- `if (blk) blk->prev_free = value` -/
def setPrevFreeOf (blk value : Nat) (mem : Mem) : Mem :=
  if blk ≠ 0 then setPrevFree blk value mem else mem

end Block

/-! ## The heap -/

/-- The static variables of `heap.c`, with the memory and the frame manager below them. -/
structure HeapState where
  phys : PhysState
  freeHead : Nat
  heapUsed : Nat
  physOffset : Nat

namespace HeapState

def mem (s : HeapState) : Mem := s.phys.mem

def write (s : HeapState) (assign : Mem → Mem) : HeapState :=
  { s with phys := { s.phys with mem := assign s.phys.mem } }

section Write

variable (s : HeapState) (assign : Mem → Mem)

@[simp] theorem write_mem : (s.write assign).mem = assign s.mem := rfl
@[simp] theorem write_pmm : (s.write assign).phys.pmm = s.phys.pmm := rfl
@[simp] theorem write_freeHead : (s.write assign).freeHead = s.freeHead := rfl
@[simp] theorem write_heapUsed : (s.write assign).heapUsed = s.heapUsed := rfl
@[simp] theorem write_physOffset : (s.write assign).physOffset = s.physOffset := rfl

@[simp] theorem setFreeHead_mem (head : Nat) : ({ s with freeHead := head }).mem = s.mem := rfl
@[simp] theorem setHeapUsed_mem (total : Nat) : ({ s with heapUsed := total }).mem = s.mem := rfl

theorem write_write (assign' : Mem → Mem) :
    (s.write assign).write assign' = s.write fun mem => assign' (assign mem) := rfl

variable {s assign} in
theorem write_congr {assign' : Mem → Mem} (same : assign s.mem = assign' s.mem) :
    s.write assign = s.write assign' :=
  congrArg (fun mem => { s with phys := { s.phys with mem := mem } }) same

end Write

end HeapState

def heapInit (offset : Nat) (phys : PhysState) : HeapState :=
  { phys := phys, freeHead := 0, heapUsed := 0, physOffset := offset }

def physToVirt (s : HeapState) (pa : Nat) : Nat := wrap64 (pa + s.physOffset)

def freeListAdd (blk : Nat) (s : HeapState) : HeapState :=
  let s := s.write (Block.setNextFree blk s.freeHead)
  let s := s.write (Block.setPrevFree blk 0)
  let s := s.write (Block.setPrevFreeOf s.freeHead blk)
  { s with freeHead := blk }

def freeListRemove (blk : Nat) (s : HeapState) : HeapState :=
  let s :=
    if Block.prevFree s.mem blk ≠ 0 then
      s.write (Block.setNextFree (Block.prevFree s.mem blk) (Block.nextFree s.mem blk))
    else { s with freeHead := Block.nextFree s.mem blk }
  let s := s.write
    (Block.setPrevFreeOf (Block.nextFree s.mem blk) (Block.prevFree s.mem blk))
  let s := s.write (Block.setNextFree blk 0)
  s.write (Block.setPrevFree blk 0)

/-- `grow_heap`: whether it succeeded. -/
def growHeap (minPayload : Nat) (s : HeapState) : Bool × HeapState :=
  let need := wrap64 (minPayload + headerSize)
  let pages := wrap64 (need + pageSize - 1) / pageSize
  let (pa, phys) := pmmAllocContiguous pages s.phys
  let s := { s with phys := phys }
  if pa = 0 then (false, s)
  else
    let blk := physToVirt s pa
    let s := s.write (Block.setSize blk (sub64 (wrap64 (pages * pageSize)) headerSize))
    let s := s.write (Block.setUsed blk 0)
    let s := s.write (Block.setNext blk 0)
    let s := s.write (Block.setPrev blk 0)
    let s := s.write (Block.setNextFree blk 0)
    let s := s.write (Block.setPrevFree blk 0)
    (true, freeListAdd blk s)

/-! ## Allocation -/

/-- The first-fit search over the free list, from `cur` on: the block found, 0
at the end of the list.  Fuel that runs out has no result. -/
def searchLoop (mem : Mem) (size : Nat) : Nat → Nat → Option Nat
  | 0, _ => none
  | fuel + 1, cur =>
      if cur = 0 then some 0
      else if Block.size mem cur ≥ size then some cur
      else searchLoop mem size fuel (Block.nextFree mem cur)

/-- The split of `cur` into a block of `size` bytes and a free one behind it. -/
def splitBlock (cur size : Nat) (s : HeapState) : HeapState :=
  let oldSize := Block.size s.mem cur
  let s := s.write (Block.setSize cur size)
  let split := wrap64 (wrap64 (cur + headerSize) + size)
  let s := s.write (Block.setSize split (sub64 (sub64 oldSize size) headerSize))
  let s := s.write (Block.setUsed split 0)
  let s := s.write (Block.setNext split (Block.next s.mem cur))
  let s := s.write (Block.setPrev split cur)
  let s := s.write (Block.setPrevOf (Block.next s.mem cur) split)
  let s := s.write (Block.setNext cur split)
  freeListAdd split s

/-- Take a block out of the free list and hand it out. -/
def acquireBlock (cur : Nat) (s : HeapState) : HeapState :=
  let s := freeListRemove cur s
  let s := s.write (Block.setUsed cur 1)
  { s with heapUsed := wrap64 (s.heapUsed + Block.size s.mem cur) }

/-- The body of the search loop at the block found: split it if the rest is
worth a block, and hand it out. -/
def takeBlock (cur size : Nat) (s : HeapState) : HeapState :=
  acquireBlock cur
    (if Block.size s.mem cur ≥ wrap64 (size + headerSize + minSplit) then splitBlock cur size s
    else s)

/-- `kmalloc` with the retries after `grow_heap` limited by fuel. -/
def kmallocLoop : Nat → Nat → HeapState → Option (Nat × HeapState)
  | 0, _, _ => none
  | fuel + 1, size, s =>
      if size = 0 then some (0, s)
      else do
        let size := alignUp size 8
        let cur ← searchLoop s.mem size wordSize s.freeHead
        if cur ≠ 0 then some (wrap64 (cur + headerSize), takeBlock cur size s)
        else
          let (grown, s) := growHeap size s
          if grown then kmallocLoop fuel size s else some (0, s)

/-- `kmalloc`.  Every retry has taken a frame from the manager, so there are no
more retries than frames. -/
def kmalloc (size : Nat) (s : HeapState) : Option (Nat × HeapState) :=
  kmallocLoop (s.phys.pmm.totalFrames + 1) size s

/-! ## Release -/

/-- Merge the free block `right` into its left neighbour `left`. -/
def absorb (left right : Nat) (s : HeapState) : HeapState :=
  let s := freeListRemove right s
  let s := s.write (Block.setSize left
    (wrap64 (Block.size s.mem left + wrap64 (headerSize + Block.size s.mem right))))
  let s := s.write (Block.setNext left (Block.next s.mem right))
  s.write (Block.setPrevOf (Block.next s.mem right) left)

/-- Mark a used block as free and count it out. -/
def releaseBlock (blk : Nat) (s : HeapState) : HeapState :=
  let s := s.write (Block.setUsed blk 0)
  let s := { s with heapUsed := sub64 s.heapUsed (Block.size s.mem blk) }
  freeListAdd blk s

def kfree (ptr : Nat) (s : HeapState) : HeapState :=
  if ptr = 0 then s
  else
    let blk := sub64 ptr headerSize
    if Block.used s.mem blk = 0 then s
    else
      let s := releaseBlock blk s
      -- Coalesce right
      let s :=
        if Block.next s.mem blk ≠ 0 ∧ Block.used s.mem (Block.next s.mem blk) = 0 then
          absorb blk (Block.next s.mem blk) s
        else s
      -- Coalesce left
      if Block.prev s.mem blk ≠ 0 ∧ Block.used s.mem (Block.prev s.mem blk) = 0 then
        absorb (Block.prev s.mem blk) blk s
      else s

/-! ## Aligned allocation -/

/-- The size that `kmalloc_aligned` asks for: `size + align + HEADER_SIZE + sizeof(void *)` -/
def paddedSize (size align : Nat) : Nat :=
  wrap64 (wrap64 (wrap64 (size + align) + headerSize) + 8)

def kmallocAligned (size align : Nat) (s : HeapState) : Option (Nat × HeapState) :=
  if size = 0 ∨ align = 0 then some (0, s)
  else if align &&& (align - 1) ≠ 0 then some (0, s)
  else do
    let (raw, s) ← kmalloc (paddedSize size align) s
    if raw = 0 then some (0, s)
    else
      let addr := wrap64 (raw + 8)
      let aligned := alignUp addr align
      some (aligned, s.write fun mem => mem.store64 (sub64 aligned 8) raw)

/-! ## Reallocation and accounting -/

/-- `for (i = 0; i < blk->size; i++) dst[i] = src[i]`, from index `i` on. -/
def copyLoop (blk dst src : Nat) : Nat → Nat → Mem → Option Mem
  | 0, _, _ => none
  | fuel + 1, i, mem =>
      if i < Block.size mem blk then
        copyLoop blk dst src fuel (i + 1) (mem.store8 (dst + i) (mem (src + i)))
      else some mem

def krealloc (ptr newSize : Nat) (s : HeapState) : Option (Nat × HeapState) :=
  if ptr = 0 then kmalloc newSize s
  else if newSize = 0 then some (0, kfree ptr s)
  else
    let blk := sub64 ptr headerSize
    let newSize := alignUp newSize 8
    if Block.size s.mem blk ≥ newSize then some (ptr, s)
    else do
      let (newPtr, s) ← kmalloc newSize s
      if newPtr = 0 then some (0, s)
      else
        let mem ← copyLoop blk newPtr ptr wordSize 0 s.mem
        some (newPtr, kfree ptr (s.write fun _ => mem))

def heapGetUsed (s : HeapState) : Nat := s.heapUsed

/-- The loop of `heap_get_free` from `cur` on. -/
def freeLoop (mem : Mem) : Nat → Nat → Nat → Option Nat
  | 0, _, _ => none
  | fuel + 1, cur, total =>
      if cur = 0 then some total
      else freeLoop mem fuel (Block.nextFree mem cur) (wrap64 (total + Block.size mem cur))

def heapGetFree (s : HeapState) : Option Nat := freeLoop s.mem wordSize s.freeHead 0

end Heap
end AuraKernel
