import AuraKernel.Kernel.Ownership
import AuraKernel.Paging.Footprint

namespace AuraKernel
namespace Kernel

open Machine
open Physical
open Paging (vmmMapPage vmmUnmapPage MapServed pageKey pteAddrMask spaceFrames FramesOwned entry)

/-!
# The kernel with address spaces

The virtual memory manager takes its tables from the same frames as the
allocators.  A caller that holds a cleared frame can make it the top-level table
of a new address space; from then on the frame belongs to the space, together
with the frames of all tables that `vmm_map_page` creates in it.
-/

/-- The kernel's session, and for each top-level table the map that its space stands for. -/
structure VirtualSession where
  session : Session
  spaces : Nat → Option (Nat → Option Nat)

namespace VirtualSession

def phys (s : VirtualSession) : PhysState := s.session.kernel.phys

/-- The session with a new memory and frame manager, and with a new map for one space. -/
def withSpace (s : VirtualSession) (phys : PhysState) (root : Nat) (pages : Nat → Option Nat) :
    VirtualSession where
  session := { s.session with kernel := s.session.kernel.withPhys phys }
  spaces := Function.update s.spaces root (some pages)

/-- The session in which a frame of the callers has become an empty top-level table. -/
def create (s : VirtualSession) (frame : Nat) : VirtualSession where
  session := { s.session with frames := s.session.frames \ {frame} }
  spaces := Function.update s.spaces (frame * pageSize) (some fun _ => none)

/-- A step of the allocators and their callers, a new address space, or a call of
`vmm_map_page` or `vmm_unmap_page`. -/
inductive Step : VirtualSession → VirtualSession → Prop
  | allocators {s : VirtualSession} {t : Session} (step : Session.Step s.session t) :
      Step s ⟨t, s.spaces⟩
  | create {s : VirtualSession} (frame : Nat) (member : frame ∈ s.session.frames)
      (cleared : ∀ index, index < 512 → entry s.phys.mem (frame * pageSize) index = 0) :
      Step s (s.create frame)
  | map {s : VirtualSession} {root : Nat} {pages : Nat → Option Nat}
      (space : s.spaces root = some pages) (virt phys flags : Nat)
      (served : MapServed root virt s.phys) :
      Step s (s.withSpace (vmmMapPage root virt phys flags s.phys) root
        (Function.update pages (pageKey virt) (some (phys &&& pteAddrMask))))
  | unmap {s : VirtualSession} {root : Nat} {pages : Nat → Option Nat}
      (space : s.spaces root = some pages) (virt : Nat) :
      Step s (s.withSpace { s.phys with mem := vmmUnmapPage root virt s.phys.mem } root
        (Function.update pages (pageKey virt) none))

/-- The kernel after boot, without address spaces. -/
def boot (totalMemoryBytes kernelEnd : Nat) (phys : PhysState) : VirtualSession where
  session := Session.boot totalMemoryBytes kernelEnd phys
  spaces := fun _ => none

def Reachable (totalMemoryBytes kernelEnd : Nat) (phys : PhysState) : VirtualSession → Prop :=
  Relation.ReflTransGen Step (boot totalMemoryBytes kernelEnd phys)

end VirtualSession

/-! ## Holders -/

/-- The components that take frames for their callers, and these callers. -/
inductive Allocator
  | heap
  | zones
  | callers
deriving DecidableEq

/-- Whoever can have a frame. -/
inductive Holder
  | allocator (a : Allocator)
  | space (root : Nat)
deriving DecidableEq

/-- The frames of the heap, those of the zones, and those that were handed out. -/
def Session.framesBy (s : Session) : Allocator → Set Nat
  | .heap => s.heapFrames
  | .zones => s.slab.allTaken
  | .callers => s.frames

/-- The frames of a holder. -/
def VirtualSession.domain (s : VirtualSession) : Holder → Set Nat
  | .allocator a => s.session.framesBy a
  | .space root => {frame | (s.spaces root).isSome ∧ frame ∈ spaceFrames s.phys.mem root}

/-! ## One allocator at a time -/

section Allocators

variable {s t : Session} {total : Nat} {reserved : Set Nat}

/-- A step of one allocator: it is confined to the frames of this allocator, and accounts for
them. -/
structure Moves (s t : Session) (a : Allocator) : Prop where
  confined : Confined 0 s.kernel.phys t.kernel.phys (s.framesBy a) (t.framesBy a)
  accounts : Accounts s.kernel.phys t.kernel.phys (s.framesBy a) (t.framesBy a)
  others : ∀ b, b ≠ a → t.framesBy b = s.framesBy b

theorem moves_pool (inv : SessionInv s total reserved) {z : Zram.Session}
    (stays : Zram.Stays s.pool z)
    (accounts : Accounts s.kernel.phys z.zram.heap.phys s.heapFrames z.taken) :
    Moves s (s.withPool z) .heap where
  confined := by
    have confined := stays.confined
    have offset : s.pool.zram.heap.physOffset = 0 := inv.heap_offset
    rw [offset] at confined
    exact confined
  accounts := accounts
  others := by
    intro b other
    cases b with
    | heap => exact absurd rfl other
    | zones => rfl
    | callers => rfl

theorem moves_slab {u : Slab.Session}
    (confined : Confined 0 s.kernel.phys u.slab.phys s.slab.allTaken u.allTaken)
    (accounts : Accounts s.kernel.phys u.slab.phys s.slab.allTaken u.allTaken) :
    Moves s (s.withSlab u) .zones where
  confined := confined
  accounts := accounts
  others := by
    intro b other
    cases b with
    | heap => rfl
    | zones => exact absurd rfl other
    | callers => rfl

theorem moves_callers {c : Custody}
    (confined : Confined 0 s.kernel.phys c.phys s.frames c.handed)
    (accounts : Accounts s.kernel.phys c.phys s.frames c.handed) :
    Moves s (s.withCustody c) .callers where
  confined := confined
  accounts := accounts
  others := by
    intro b other
    cases b with
    | heap => rfl
    | zones => rfl
    | callers => exact absurd rfl other

/-- The frames of the heap after an operation are noted from the bitmap. -/
theorem accounts_takenAfter (z : Zram.Session) (heap : Heap.HeapState) :
    Accounts z.zram.heap.phys heap.phys z.taken (z.takenAfter heap) := by
  apply accounts_of_used Set.subset_union_left
  intro frame bound used
  by_cases wasUsed : z.zram.heap.phys.Used frame
  · exact Or.inl wasUsed
  · exact Or.inr (Or.inr ⟨bound, (PhysState.not_used_iff _ _).mp wasUsed, used⟩)

/-- Writes outside the bitmap take nothing. -/
theorem accounts_of_write {phys : PhysState} {mem : Mem} {own : Set Nat}
    (bitmap : ∀ place ∈ phys.bitmapBytes, mem place = phys.mem place) :
    Accounts phys { phys with mem := mem } own own := by
  apply accounts_of_used (Set.Subset.refl own)
  intro frame bound used
  exact Or.inl ((@used_congr phys { phys with mem := mem } rfl bitmap frame bound).mp used)

theorem moves_hands_out {phys : PhysState} {taken : Set Nat}
    (takes : (phys = s.kernel.phys ∧ taken = ∅) ∨ Takes s.kernel.phys phys taken) :
    Moves s (s.withCustody ⟨phys, s.frames ∪ taken⟩) .callers := by
  rcases takes with ⟨rfl, rfl⟩ | takes
  · apply moves_callers
    · rw [Set.union_empty]
      exact Confined.refl _ _ _
    · rw [Set.union_empty]
      exact Accounts.refl _ _
  · exact moves_callers takes.confined takes.accounts

theorem moves_slabCall {u : Slab.Session} {layout after : Slab.SlabLayout}
    (inv : SessionInv s total reserved) (before : Slab.SessionInv s.slab reserved layout)
    (slabInv : Slab.SessionInv u reserved after)
    (effect : Slab.SlabEffect s.slab.slab u.slab layout after) : Moves s (s.withSlab u) .zones := by
  have confined := effect.confined before slabInv
  have offset : s.slab.slab.physOffset = 0 := inv.slab_offset
  rw [offset] at confined
  apply moves_slab confined
  apply accounts_of_used
  · intro frame member
    rcases before.mem_allTaken.mp member with ⟨i, inZone⟩
    exact slabInv.mem_allTaken.mpr ⟨i, effect.pages_le i inZone⟩
  · intro frame bound used
    exact ((effect.used_iff frame bound).mp used).imp_right slabInv.mem_allTaken.mpr

/-- Every step is a step of one allocator. -/
theorem SessionInv.moves (inv : SessionInv s total reserved) (step : Session.Step s t) :
    ∃ a, Moves s t a := by
  cases step with
  | heapCall call result heap allowed returns =>
      refine ⟨.heap, moves_pool inv (inv.pool.call_stays allowed returns) ?_⟩
      exact accounts_takenAfter s.pool heap
  | store src outHandle code outHandle' z returns =>
      refine ⟨.heap, moves_pool inv (inv.pool.store_stays returns) ?_⟩
      exact accounts_takenAfter s.pool z.heap
  | load handle dst code dst' z returns =>
      refine ⟨.heap, moves_pool inv (inv.pool.load_stays returns) ?_⟩
      rcases inv.pool.load_state returns with ⟨pagesLoaded, rfl⟩
      exact Accounts.refl _ _
  | zramFree handle =>
      refine ⟨.heap, moves_pool inv (inv.pool.free_stays handle) ?_⟩
      exact accounts_takenAfter s.pool _
  | zalloc size =>
      rcases inv.slab with ⟨layout, slabInv⟩
      rcases slabInv.zalloc size with ⟨after, slabInv', effect⟩
      exact ⟨.zones, moves_slabCall inv slabInv slabInv' effect⟩
  | zfree ptr size allowed =>
      rcases inv.slab with ⟨layout, slabInv⟩
      rcases @Slab.SessionInv.zfree _ _ _ slabInv ptr size allowed with ⟨after, slabInv', effect⟩
      exact ⟨.zones, moves_slabCall inv slabInv slabInv' effect⟩
  | allocFrame =>
      refine ⟨.callers, moves_hands_out ?_⟩
      rcases inv.space.allocFrame with ⟨failed, _⟩ | ⟨frame, _, _, _, nonzero, address, takes⟩
      · rw [failed]
        exact Or.inl ⟨rfl, framesOf_zero 1⟩
      · rw [address, framesOf_address nonzero, frames_single]
        exact Or.inr takes
  | allocContiguous frameCount =>
      refine ⟨.callers, moves_hands_out ?_⟩
      rcases inv.space.allocContiguous frameCount with
        failed | ⟨start, _, _, nonzero, _, address, takes⟩
      · rw [failed]
        exact Or.inl ⟨rfl, framesOf_zero frameCount⟩
      · rw [address, framesOf_address nonzero]
        exact Or.inr takes
  | freeFrame paddr member =>
      rcases inv.frames_owned member with ⟨bound, used, _⟩
      have releases := pmmMarkFree_effect inv.space.pmm bound used
      exact ⟨.callers, moves_callers (releases.confined member) releases.accounts⟩
  | writePayload ptr assign member only =>
      refine ⟨.heap, moves_pool inv (inv.pool.write_stays member only) ?_⟩
      rcases inv.pool.heap with ⟨layout, heapInv⟩
      have held : ptr ∈ s.pool.heapSession.held := Finset.mem_union_left _ member
      have spares := heapInv.write_spares held only
      apply accounts_of_used (Set.Subset.refl _)
      exact fun frame bound used => (spares.used_iff frame bound).mp used
  | writeChunk i c member mem only =>
      rcases inv.slab with ⟨layout, slabInv⟩
      have confined := @Slab.SessionInv.write_confined _ _ _ slabInv i c member mem only
      have offset : s.slab.slab.physOffset = 0 := inv.slab_offset
      rw [offset] at confined
      refine ⟨.zones, moves_slab confined (accounts_of_write fun place inBitmap => only place ?_)⟩
      by_contra inside
      have chunk : c ∈ layout.chunksOf s.slab.slab.physOffset i := by
        apply slabInv.slab.live_mem
        rw [← slabInv.live]
        exact member
      exact slabInv.slab.not_bitmap chunk (by omega) (by omega) inBitmap
  | writeFrame frame member mem only =>
      rcases inv.frames_owned member with ⟨bound, _, notReserved⟩
      have bitmap : ∀ place ∈ s.kernel.phys.bitmapBytes, mem place = s.kernel.phys.mem place := by
        intro place inBitmap
        apply only
        by_contra inside
        refine notReserved (inv.space.bitmap_reserved frame bound place inBitmap ?_ ?_) <;> omega
      refine ⟨.callers, moves_callers ?_ (accounts_of_write bitmap)⟩
      apply confined_of_write
      · intro other inMemory used
        exact (@used_congr s.kernel.phys { s.kernel.phys with mem := mem } rfl bitmap other
          inMemory).mpr used
      · intro place away
        apply only
        have apart := away frame member
        rwa [Nat.zero_add, Nat.zero_add] at apart

end Allocators

end Kernel
end AuraKernel
