import AuraKernel.Physical.Pmm
import Mathlib.Data.Fin.VecNotation
import Mathlib.Logic.Function.Basic

namespace AuraKernel
namespace Slab

open Machine
open Physical

/-!
# The slab allocator

`kernel/core/slab.c` keeps eight zones of fixed-size chunks.  A free chunk
holds the link to the next one in its first word; an empty zone takes a page
from the frame manager and carves it into chunks.
-/

def slabPageSize : Nat := 4096

def zoneChunkSize : Fin 8 → Nat := ![16, 32, 64, 128, 256, 512, 1024, 2048]

structure Zone where
  freeList : Nat
  chunkSize : Nat
  allocCount : Nat
deriving DecidableEq, Repr

/-- The static variables of `slab.c`, with the memory and the frame manager below them. -/
structure SlabState where
  phys : PhysState
  zones : Fin 8 → Zone
  physOffset : Nat

namespace SlabState

def mem (s : SlabState) : Mem := s.phys.mem

def setZone (s : SlabState) (i : Fin 8) (zone : Zone) : SlabState :=
  { s with zones := Function.update s.zones i zone }

def setMem (s : SlabState) (mem : Mem) : SlabState :=
  { s with phys := { s.phys with mem := mem } }

section Fields

variable (s : SlabState) (i : Fin 8) (zone : Zone) (mem : Mem)

@[simp] theorem setZone_phys : (s.setZone i zone).phys = s.phys := rfl
@[simp] theorem setZone_mem : (s.setZone i zone).mem = s.mem := rfl
@[simp] theorem setZone_physOffset : (s.setZone i zone).physOffset = s.physOffset := rfl

@[simp] theorem setZone_self : (s.setZone i zone).zones i = zone := by
  simp only [setZone, Function.update_self]

theorem setZone_of_ne {j : Fin 8} (different : j ≠ i) : (s.setZone i zone).zones j = s.zones j := by
  simp only [setZone, Function.update_of_ne different]

@[simp] theorem setMem_mem : (s.setMem mem).mem = mem := rfl
@[simp] theorem setMem_pmm : (s.setMem mem).phys.pmm = s.phys.pmm := rfl
@[simp] theorem setMem_zones : (s.setMem mem).zones = s.zones := rfl
@[simp] theorem setMem_physOffset : (s.setMem mem).physOffset = s.physOffset := rfl

end Fields

end SlabState

def physToVirt (s : SlabState) (pa : Nat) : Nat := wrap64 (pa + s.physOffset)

/-- `slab_init`, with `slab_phys_offset` as it was set before. -/
def slabInit (offset : Nat) (phys : PhysState) : SlabState where
  phys := phys
  zones := fun i => { freeList := 0, chunkSize := zoneChunkSize i, allocCount := 0 }
  physOffset := offset

/-- The carving loop of `zone_refill`: the head of the free list and the memory
after the first `count` chunks. -/
def carve (base chunkSize : Nat) : Nat → Nat × Mem → Nat × Mem
  | 0, list => list
  | count + 1, list =>
      let (freeList, mem) := carve base chunkSize count list
      let c := base + count * chunkSize
      (c, mem.store64 c freeList)

def zoneRefill (i : Fin 8) (s : SlabState) : SlabState :=
  let (pa, phys) := pmmAllocFrame s.phys
  let s := { s with phys := phys }
  if pa = 0 then s
  else
    let base := physToVirt s pa
    let z := s.zones i
    let (freeList, mem) := carve base z.chunkSize (slabPageSize / z.chunkSize) (z.freeList, s.mem)
    (s.setMem mem).setZone i
      { z with freeList := freeList, allocCount := wrap64 (z.allocCount + 1) }

/-- `size_to_zone_index`, with `none` for -1. -/
def sizeToZoneIndex (size : Nat) : Option (Fin 8) :=
  (List.finRange 8).find? fun i => size ≤ zoneChunkSize i

/-- Take the head of a free list that is not empty. -/
def popChunk (i : Fin 8) (s : SlabState) : Nat × SlabState :=
  let z := s.zones i
  (z.freeList, s.setZone i { z with freeList := s.mem.load64 z.freeList })

def zalloc (size : Nat) (s : SlabState) : Nat × SlabState :=
  if size = 0 then (0, s)
  else
    match sizeToZoneIndex size with
    | none => (0, s)
    | some i =>
        if (s.zones i).freeList = 0 then
          let s := zoneRefill i s
          if (s.zones i).freeList = 0 then (0, s) else popChunk i s
        else popChunk i s

def zfree (ptr size : Nat) (s : SlabState) : SlabState :=
  if ptr = 0 ∨ size = 0 then s
  else
    match sizeToZoneIndex size with
    | none => s
    | some i =>
        let z := s.zones i
        (s.setMem (s.mem.store64 ptr z.freeList)).setZone i { z with freeList := ptr }

/-! ## Sizes -/

/-- The chunk sizes are powers of two that divide a page. -/
theorem zoneChunkSize_facts (i : Fin 8) :
    8 ≤ zoneChunkSize i ∧ zoneChunkSize i ≤ 2048 ∧
      slabPageSize / zoneChunkSize i * zoneChunkSize i = slabPageSize ∧
      0 < slabPageSize / zoneChunkSize i := by
  revert i
  decide

theorem sizeToZoneIndex_le {size : Nat} {i : Fin 8} (found : sizeToZoneIndex size = some i) :
    size ≤ zoneChunkSize i := by
  have holds := List.find?_some found
  exact of_decide_eq_true holds

/-- Every size up to 2048 has a zone. -/
theorem sizeToZoneIndex_isSome {size : Nat} (small : size ≤ 2048) :
    ∃ i, sizeToZoneIndex size = some i := by
  rw [← Option.isSome_iff_exists]
  unfold sizeToZoneIndex
  rw [List.find?_isSome]
  exact ⟨7, List.mem_finRange 7, decide_eq_true small⟩

end Slab
end AuraKernel
