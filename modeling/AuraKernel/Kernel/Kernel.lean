import AuraKernel.Physical.Reservation
import AuraKernel.Slab.Slab
import AuraKernel.Zram.Pool

namespace AuraKernel
namespace Kernel

open Machine
open Physical
open Heap
open Slab
open Zram

/-!
# The kernel's memory

`kernel_main` stacks the allocators on one frame manager.  The state holds each
static variable once; the components are seen through it with the memory and the
frame manager that they share.
-/

/-- The memory, the frame manager, the heap and the pool on top of it, and the
static variables of `slab.c`. -/
structure KernelState where
  zram : ZramState
  zones : Fin 8 → Zone
  slabPhysOffset : Nat

namespace KernelState

def heap (k : KernelState) : HeapState := k.zram.heap

def phys (k : KernelState) : PhysState := k.zram.heap.phys

def slab (k : KernelState) : SlabState where
  phys := k.phys
  zones := k.zones
  physOffset := k.slabPhysOffset

def withPhys (k : KernelState) (phys : PhysState) : KernelState :=
  { k with zram := { k.zram with heap := { k.zram.heap with phys := phys } } }

def withHeap (k : KernelState) (heap : HeapState) : KernelState :=
  { k with zram := { k.zram with heap := heap } }

def withSlab (k : KernelState) (s : SlabState) : KernelState :=
  { (k.withPhys s.phys) with zones := s.zones, slabPhysOffset := s.physOffset }

section Fields

variable (k : KernelState) (phys : PhysState) (heap : HeapState) (s : SlabState)

@[simp] theorem withPhys_phys : (k.withPhys phys).phys = phys := rfl
@[simp] theorem withHeap_phys : (k.withHeap heap).phys = heap.phys := rfl
@[simp] theorem withSlab_phys : (k.withSlab s).phys = s.phys := rfl
@[simp] theorem withSlab_slab : (k.withSlab s).slab = s := rfl
@[simp] theorem slab_phys : k.slab.phys = k.phys := rfl
@[simp] theorem heap_phys : k.heap.phys = k.phys := rfl

end Fields

end KernelState

/-- The kernel after boot: the frame manager, `heap_init(0)` and `zram_init` as `kernel_main` runs
them, and `slab_init` after them, which the users of the slab allocator rely on and which
`kernel_main` itself never calls. -/
def kernelMain (totalMemoryBytes kernelEnd : Nat) (s : PhysState) : KernelState where
  zram := zramInit (heapInit 0 (kernelMainPmm totalMemoryBytes kernelEnd s))
  zones := (slabInit 0 s).zones
  slabPhysOffset := 0

end Kernel
end AuraKernel
