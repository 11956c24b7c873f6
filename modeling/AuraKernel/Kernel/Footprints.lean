import AuraKernel.Slab.Runs
import AuraKernel.Zram.Runs

namespace AuraKernel

open Machine
open Physical

/-!
# The footprints of the allocators

Each allocator is confined to the frames that it has taken.  For the pool these
are the frames of the heap under it, for the slab allocator the pages of all
zones together.
-/

namespace Zram

open Heap

section Pool

variable {s : Session} {reserved : Set Nat}

/-- The pool is confined to the frames of its heap from `s` to `t`. -/
structure Stays (s t : Session) : Prop where
  physOffset_eq : t.zram.heap.physOffset = s.zram.heap.physOffset
  confined : Confined s.zram.heap.physOffset s.zram.heap.phys t.zram.heap.phys s.taken t.taken

/-- An operation that leaves the heap as it was. -/
theorem stays_of_heap_eq {t : Session} (heap : t.zram.heap = s.zram.heap)
    (taken : t.taken = s.taken) : Stays s t := by
  constructor
  · rw [heap]
  · rw [heap, taken]
    exact Confined.refl _ _ _

theorem stays_of_spares {t : Session} (spares : Spares s.zram.heap t.zram.heap t.taken)
    (newFree : ∀ frame ∈ t.taken, frame ∈ s.taken ∨ s.zram.heap.phys.Free frame) :
    Stays s t where
  physOffset_eq := spares.physOffset_eq
  confined := spares.confined newFree

theorem takenAfter_free (heap : HeapState) :
    ∀ frame ∈ s.takenAfter heap, frame ∈ s.taken ∨ s.zram.heap.phys.Free frame := by
  rintro frame (old | ⟨_, free, _⟩)
  · exact Or.inl old
  · exact Or.inr free

theorem SessionInv.store_stays (inv : SessionInv s reserved) {src : Option Page}
    {outHandle outHandle' : Option Nat} {code : Int} {z : ZramState}
    (returns : zramStore src outHandle s.zram = some (code, outHandle', z)) :
    Stays s (s.store src code outHandle' z) := by
  cases inv.store_outcome returns with
  | refused _ negative => exact stays_of_heap_eq rfl (takenAfter_same s)
  | exhausted size heap short failed =>
      have unchanged := inv.exhausted short failed
      subst unchanged
      exact stays_of_heap_eq rfl (takenAfter_same s)
  | stored page given slot found positive short stream ptr heap granted nonzero =>
      rcases inv.heap with ⟨layout, heapInv⟩
      have small : (streamOf page).length + 7 < 2 ^ 64 := by
        unfold zramPageSize at short
        omega
      rcases heapInv.copy_after small granted nonzero with ⟨after, spares⟩
      apply stays_of_spares
      · have takenEq := congrArg Heap.Session.taken after
        change s.takenAfter _ = _ at takenEq
        simp only [Session.store]
        rw [takenEq]
        exact spares
      · exact takenAfter_free _

theorem SessionInv.load_stays (inv : SessionInv s reserved) {handle : Nat}
    {dst dst' : Option (List UInt8)} {code : Int} {z : ZramState}
    (returns : zramLoad handle dst s.zram = some (code, dst', z)) :
    Stays s { s with zram := z } := by
  rcases inv.load_state returns with ⟨total, rfl⟩
  exact stays_of_heap_eq rfl rfl

/-- A call of the heap, made by another caller or by the pool itself. -/
theorem SessionInv.heapCall_stays (inv : SessionInv s reserved) {call : Heap.Call} {result : Nat}
    {t : Session} (allowed : call.Allowed s.heapSession.held)
    (returns : call.run s.zram.heap = some (result, t.zram.heap))
    (taken : t.taken = s.takenAfter t.zram.heap) : Stays s t := by
  rcases inv.heap with ⟨layout, heapInv⟩
  have spares := heapInv.call_spares allowed returns
  apply stays_of_spares
  · rw [taken]
    exact spares
  · rw [taken]
    exact takenAfter_free _

theorem SessionInv.free_stays (inv : SessionInv s reserved) (handle : Nat) :
    Stays s (s.free handle) := by
  by_cases live : ∃ i : Fin 1024, i.val = handle ∧ (s.zram.pool i).used = true
  · rcases live with ⟨i, rfl, used⟩
    have isBuffer : (s.zram.pool i).data ∈ buffers s.zram.pool := mem_buffers.mpr ⟨i, used, rfl⟩
    have freed : (s.free i.val).zram.heap = Heap.kfree (s.zram.pool i).data s.zram.heap := by
      unfold Session.free zramFree
      rw [dif_pos i.isLt, if_pos used]
    apply @SessionInv.heapCall_stays _ _ inv (.kfree (s.zram.pool i).data) 0
    · exact Or.inr (Finset.mem_union_right _ isBuffer)
    · rw [freed]
      rfl
    · rfl
  · have unchanged : s.free handle = s := by
      refine (inv.free_dead fun i same => ?_).2
      cases stream : s.streams i with
      | none => rfl
      | some bytes => exact absurd ⟨i, same, (inv.stored i bytes stream).used⟩ live
    rw [unchanged]
    exact stays_of_heap_eq rfl rfl

theorem SessionInv.call_stays (inv : SessionInv s reserved) {call : Heap.Call} {result : Nat}
    {heap : HeapState} (allowed : call.Allowed s.others)
    (returns : call.run s.zram.heap = some (result, heap)) :
    Stays s (s.call call result heap) := by
  exact inv.heapCall_stays (allowed.union_left _) returns rfl

theorem SessionInv.write_stays (inv : SessionInv s reserved) {ptr : Nat} {assign : Mem → Mem}
    (member : ptr ∈ s.others)
    (only : ∀ place, (place < ptr ∨ ptr + payloadSize s.zram.heap.mem ptr ≤ place) →
      assign s.zram.heap.mem place = s.zram.heap.mem place) :
    Stays s { s with zram := { s.zram with heap := s.zram.heap.write assign } } := by
  rcases inv.heap with ⟨layout, heapInv⟩
  have held : ptr ∈ s.heapSession.held := Finset.mem_union_left _ member
  apply stays_of_spares
  · exact heapInv.write_spares held only
  · exact fun frame isTaken => Or.inl isTaken

end Pool

end Zram

namespace Slab

section Zones

variable {s : Session} {reserved : Set Nat} {layout : SlabLayout}

def Session.allTaken (s : Session) : Set Nat := {frame | ∃ i, frame ∈ s.taken i}

theorem SessionInv.mem_allTaken (inv : SessionInv s reserved layout) {frame : Nat} :
    frame ∈ s.allTaken ↔ ∃ i, frame ∈ layout.pages i :=
  exists_congr fun i => inv.taken i frame

/-- A call of `zalloc` or `zfree` is confined to the pages of the zones. -/
theorem SlabEffect.confined {next : Session} {after : SlabLayout}
    (effect : SlabEffect s.slab next.slab layout after) (inv : SessionInv s reserved layout)
    (inv' : SessionInv next reserved after) :
    Confined s.slab.physOffset s.slab.phys next.slab.phys s.allTaken next.allTaken where
  total_eq := effect.total_eq
  new_free := by
    intro frame member
    rcases inv'.mem_allTaken.mp member with ⟨i, inAfter⟩
    rcases effect.new_free i frame inAfter with old | ⟨_, free⟩
    · exact Or.inl (inv.mem_allTaken.mpr ⟨i, old⟩)
    · exact Or.inr free
  used_keeps := fun frame bound used _ => (effect.used_iff frame bound).mpr (Or.inl used)
  mem_eq := fun place notBitmap away =>
    effect.outside place notBitmap fun i page member =>
      away page (Or.inr (inv'.mem_allTaken.mpr ⟨i, member⟩))

/-- A caller's write to its chunk is confined to the pages of the zones. -/
theorem SessionInv.write_confined (inv : SessionInv s reserved layout) {i : Fin 8} {c : Nat}
    (member : c ∈ s.live i) {mem : Mem}
    (only : ∀ place, (place < c ∨ c + zoneChunkSize i ≤ place) → mem place = s.slab.mem place) :
    Confined s.slab.physOffset s.slab.phys { s.slab.phys with mem := mem } s.allTaken
      s.allTaken := by
  have chunk : c ∈ layout.chunksOf s.slab.physOffset i := by
    rw [inv.live] at member
    exact inv.slab.live_mem member
  apply confined_of_write
  · intro frame bound used
    have bitmap : ∀ place ∈ s.slab.phys.bitmapBytes, mem place = s.slab.mem place := by
      intro place inBitmap
      apply only
      by_contra inside
      exact inv.slab.not_bitmap chunk (by omega) (by omega) inBitmap
    exact (@used_congr s.slab.phys { s.slab.phys with mem := mem } rfl bitmap frame bound).mpr used
  · intro place away
    apply only
    rcases chunk_place chunk with ⟨page, pageMem, low, high⟩
    have apart := away page (inv.mem_allTaken.mpr ⟨i, pageMem⟩)
    change place < s.slab.physOffset + page * slabPageSize ∨
      s.slab.physOffset + (page + 1) * slabPageSize ≤ place at apart
    omega

end Zones

end Slab
end AuraKernel
