import AuraKernel.Machine.LinkedList
import AuraKernel.Physical.Handout
import AuraKernel.Slab.Slab
import Mathlib.Data.Finset.Prod
import Mathlib.Data.Finset.Range

namespace AuraKernel
namespace Slab

open Machine
open Physical

/-!
# The slab invariant

Each zone has its pages; the chunks of these pages are either on the zone's
free list or in use.  No page belongs to two zones, so all chunks of all zones
are disjoint, and a write to one chunk is invisible to the links in the others.
-/

/-- The chunks of some pages of a zone. -/
def chunks (offset chunkSize : Nat) (pages : Finset Nat) : Finset Nat :=
  (pages ×ˢ Finset.range (slabPageSize / chunkSize)).image
    fun place => offset + place.1 * slabPageSize + place.2 * chunkSize

theorem mem_chunks {offset chunkSize : Nat} {pages : Finset Nat} {c : Nat} :
    c ∈ chunks offset chunkSize pages ↔ ∃ page ∈ pages, ∃ k, k < slabPageSize / chunkSize ∧
      c = offset + page * slabPageSize + k * chunkSize := by
  unfold chunks
  simp only [Finset.mem_image, Finset.mem_product, Finset.mem_range, Prod.exists]
  constructor
  · rintro ⟨page, k, ⟨member, bound⟩, same⟩
    exact ⟨page, member, k, bound, same.symm⟩
  · rintro ⟨page, member, k, bound, same⟩
    exact ⟨page, k, ⟨member, bound⟩, same.symm⟩

/-- The pages of the zones, their free lists in order, and their chunks in use. -/
structure SlabLayout where
  pages : Fin 8 → Finset Nat
  nodes : Fin 8 → List Nat
  live : Fin 8 → Finset Nat

namespace SlabLayout

def chunksOf (layout : SlabLayout) (offset : Nat) (i : Fin 8) : Finset Nat :=
  chunks offset (zoneChunkSize i) (layout.pages i)

def set (layout : SlabLayout) (i : Fin 8) (pages : Finset Nat) (nodes : List Nat)
    (live : Finset Nat) : SlabLayout where
  pages := Function.update layout.pages i pages
  nodes := Function.update layout.nodes i nodes
  live := Function.update layout.live i live

section Fields

variable (layout : SlabLayout) (i : Fin 8) (pages : Finset Nat) (nodes : List Nat)
  (live : Finset Nat)

@[simp] theorem set_self : (layout.set i pages nodes live).pages i = pages ∧
    (layout.set i pages nodes live).nodes i = nodes ∧
    (layout.set i pages nodes live).live i = live := by
  simp only [set, Function.update_self, and_self]

theorem set_of_ne {j : Fin 8} (different : j ≠ i) :
    (layout.set i pages nodes live).pages j = layout.pages j ∧
      (layout.set i pages nodes live).nodes j = layout.nodes j ∧
      (layout.set i pages nodes live).live j = layout.live j := by
  simp only [set, Function.update_of_ne different, and_self]

end Fields

end SlabLayout

/-- The part of the invariant that is about one zone. -/
structure ZoneInv (s : SlabState) (reserved : Set Nat) (i : Fin 8) (pages : Finset Nat)
    (nodes : List Nat) (live : Finset Nat) : Prop where
  chunkSize : (s.zones i).chunkSize = zoneChunkSize i
  chain : Chain s.mem.load64 (s.zones i).freeList nodes
  nodup : nodes.Nodup
  chunk_iff : ∀ c, c ∈ nodes ∨ c ∈ live ↔ c ∈ chunks s.physOffset (zoneChunkSize i) pages
  apart : ∀ c ∈ nodes, c ∉ live
  owned : ∀ page ∈ pages, page < s.phys.pmm.totalFrames ∧ s.phys.Used page ∧ page ∉ reserved
  count : (s.zones i).allocCount = pages.card

structure SlabInv (s : SlabState) (reserved : Set Nat) (layout : SlabLayout) : Prop where
  space : FrameSpace s.phys s.physOffset reserved
  offset_aligned : s.physOffset % slabPageSize = 0
  zone : ∀ i, ZoneInv s reserved i (layout.pages i) (layout.nodes i) (layout.live i)
  pages_apart : ∀ i j page, page ∈ layout.pages i → page ∈ layout.pages j → i = j

/-! ## Chunks -/

section Chunks

variable {offset chunkSize : Nat} {pages : Finset Nat} {c : Nat}

theorem chunk_place {i : Fin 8} (member : c ∈ chunks offset (zoneChunkSize i) pages) :
    ∃ page ∈ pages, offset + page * slabPageSize ≤ c ∧
      c + zoneChunkSize i ≤ offset + (page + 1) * slabPageSize := by
  rcases mem_chunks.mp member with ⟨page, pageMem, k, bound, rfl⟩
  rcases zoneChunkSize_facts i with ⟨_, _, whole, _⟩
  have last := Nat.mul_le_mul_right (zoneChunkSize i) bound
  rw [whole, Nat.succ_mul] at last
  refine ⟨page, pageMem, by omega, ?_⟩
  rw [Nat.add_mul]
  omega

/-- Two chunks of one zone overlap only if they are the same. -/
theorem chunk_apart_same {i : Fin 8} {d : Nat} (member : c ∈ chunks offset (zoneChunkSize i) pages)
    (member' : d ∈ chunks offset (zoneChunkSize i) pages) (different : c ≠ d) :
    c + zoneChunkSize i ≤ d ∨ d + zoneChunkSize i ≤ c := by
  rcases mem_chunks.mp member with ⟨page, _, k, bound, rfl⟩
  rcases mem_chunks.mp member' with ⟨page', _, k', bound', rfl⟩
  rcases zoneChunkSize_facts i with ⟨_, _, whole, _⟩
  have last := Nat.mul_le_mul_right (zoneChunkSize i) bound
  have last' := Nat.mul_le_mul_right (zoneChunkSize i) bound'
  rw [whole, Nat.succ_mul] at last last'
  unfold slabPageSize at *
  rcases Nat.lt_trichotomy page page' with less | same | greater
  · omega
  · subst same
    rcases Nat.lt_trichotomy k k' with before | equal | behind
    · have step := Nat.mul_le_mul_right (zoneChunkSize i) before
      rw [Nat.succ_mul] at step
      omega
    · exact absurd (by rw [equal]) different
    · have step := Nat.mul_le_mul_right (zoneChunkSize i) behind
      rw [Nat.succ_mul] at step
      omega
  · omega

/-- Chunks of different pages are disjoint. -/
theorem chunk_apart_pages {i j : Fin 8} {pages' : Finset Nat} {d : Nat}
    (member : c ∈ chunks offset (zoneChunkSize i) pages)
    (member' : d ∈ chunks offset (zoneChunkSize j) pages')
    (disjoint : ∀ page ∈ pages, page ∉ pages') :
    c + zoneChunkSize i ≤ d ∨ d + zoneChunkSize j ≤ c := by
  rcases chunk_place member with ⟨page, pageMem, low, high⟩
  rcases chunk_place member' with ⟨page', pageMem', low', high'⟩
  have different : page ≠ page' := fun same => disjoint page pageMem (same ▸ pageMem')
  unfold slabPageSize at *
  omega

/-- A zone has a fixed number of chunks for each page. -/
theorem card_chunks (offset : Nat) (i : Fin 8) (pages : Finset Nat) :
    (chunks offset (zoneChunkSize i) pages).card =
      pages.card * (slabPageSize / zoneChunkSize i) := by
  unfold chunks
  rw [Finset.card_image_of_injOn, Finset.card_product, Finset.card_range]
  rintro ⟨page, k⟩ inside ⟨page', k'⟩ inside' same
  rw [Finset.mem_coe, Finset.mem_product, Finset.mem_range] at inside inside'
  rcases zoneChunkSize_facts i with ⟨positive, _, whole, _⟩
  have bound := Nat.mul_le_mul_right (zoneChunkSize i) inside.2
  have bound' := Nat.mul_le_mul_right (zoneChunkSize i) inside'.2
  rw [whole, Nat.succ_mul] at bound bound'
  dsimp only at *
  unfold slabPageSize at *
  have samePage : page = page' := by omega
  subst samePage
  have sameK : k * zoneChunkSize i = k' * zoneChunkSize i := by omega
  rw [Nat.eq_of_mul_eq_mul_right (by omega) sameK]

theorem chunk_aligned {i : Fin 8} (aligned : offset % slabPageSize = 0)
    (member : c ∈ chunks offset (zoneChunkSize i) pages) : c % zoneChunkSize i = 0 := by
  rcases mem_chunks.mp member with ⟨page, _, k, _, rfl⟩
  rcases zoneChunkSize_facts i with ⟨_, _, whole, _⟩
  have divides : zoneChunkSize i ∣ slabPageSize := ⟨_, (Nat.mul_comm _ _ ▸ whole).symm⟩
  refine Nat.mod_eq_zero_of_dvd (Nat.dvd_add (Nat.dvd_add ?_ ?_) (Nat.dvd_mul_left _ k))
  · exact divides.trans (Nat.dvd_of_mod_eq_zero aligned)
  · exact divides.mul_left page

end Chunks

namespace SlabInv

variable {s s' : SlabState} {reserved : Set Nat} {layout after : SlabLayout} {i j : Fin 8}
  {c d : Nat}

/-- All chunks of all zones are disjoint. -/
theorem chunks_apart (inv : SlabInv s reserved layout)
    (member : c ∈ layout.chunksOf s.physOffset i) (member' : d ∈ layout.chunksOf s.physOffset j)
    (different : i ≠ j ∨ c ≠ d) : c + zoneChunkSize i ≤ d ∨ d + zoneChunkSize j ≤ c := by
  by_cases same : i = j
  · subst same
    exact chunk_apart_same member member' (different.resolve_left fun ne => ne rfl)
  · exact chunk_apart_pages member member' fun page inI inJ =>
      same (inv.pages_apart i j page inI inJ)

theorem node_mem (inv : SlabInv s reserved layout) (node : c ∈ layout.nodes i) :
    c ∈ layout.chunksOf s.physOffset i :=
  ((inv.zone i).chunk_iff c).mp (Or.inl node)

theorem live_mem (inv : SlabInv s reserved layout) (live : c ∈ layout.live i) :
    c ∈ layout.chunksOf s.physOffset i :=
  ((inv.zone i).chunk_iff c).mp (Or.inr live)

/-- A page of a zone lies inside the direct map. -/
theorem page_lt (inv : SlabInv s reserved layout) {page : Nat} (member : page ∈ layout.pages i) :
    s.physOffset + (page + 1) * slabPageSize < 2 ^ 64 := by
  have last : (page + 1) * slabPageSize ≤ s.phys.pmm.totalFrames * pageSize :=
    Nat.mul_le_mul_right pageSize ((inv.zone i).owned page member).1
  exact Nat.lt_of_le_of_lt (Nat.add_le_add_left last s.physOffset) inv.space.space_lt

/-- A chunk is not null and lies inside the direct map. -/
theorem chunk_bounds (inv : SlabInv s reserved layout)
    (member : c ∈ layout.chunksOf s.physOffset i) :
    0 < c ∧ c + zoneChunkSize i < 2 ^ 64 := by
  rcases chunk_place member with ⟨page, pageMem, low, high⟩
  have bound := inv.page_lt pageMem
  have nonzero : page ≠ 0 := by
    rintro rfl
    exact ((inv.zone i).owned 0 pageMem).2.2 inv.space.zero_reserved
  unfold slabPageSize at low high bound
  have above : 4096 ≤ page * 4096 := Nat.le_mul_of_pos_left 4096 (Nat.pos_of_ne_zero nonzero)
  exact ⟨by omega, Nat.lt_of_le_of_lt high bound⟩

/-- A byte of a chunk is no byte of the bitmap. -/
theorem not_bitmap (inv : SlabInv s reserved layout) (member : c ∈ layout.chunksOf s.physOffset i)
    {place : Nat} (low : c ≤ place) (high : place < c + zoneChunkSize i) :
    place ∉ s.phys.bitmapBytes := by
  rcases chunk_place member with ⟨page, pageMem, low', high'⟩
  rcases (inv.zone i).owned page pageMem with ⟨bound, _, notReserved⟩
  intro inBitmap
  refine notReserved (inv.space.bitmap_reserved page bound place inBitmap ?_ ?_)
  · exact Nat.le_trans low' low
  · exact Nat.lt_of_lt_of_le high high'

/-- The zones do not notice what happens outside the first words of their free
chunks, as long as their pages stay in use. -/
theorem frame (inv : SlabInv s reserved layout) (space : FrameSpace s'.phys s.physOffset reserved)
    (total : s'.phys.pmm.totalFrames = s.phys.pmm.totalFrames)
    (used : ∀ i, ∀ page ∈ layout.pages i, s.phys.Used page → s'.phys.Used page)
    (links : ∀ i, ∀ c ∈ layout.nodes i, s'.mem.load64 c = s.mem.load64 c)
    (zones : s'.zones = s.zones) (physOffset : s'.physOffset = s.physOffset) :
    SlabInv s' reserved layout where
  space := physOffset ▸ space
  offset_aligned := physOffset ▸ inv.offset_aligned
  zone := fun i => by
    have zone := inv.zone i
    refine ⟨by rw [zones]; exact zone.chunkSize, ?_, zone.nodup, ?_, zone.apart, ?_, ?_⟩
    · rw [zones]
      exact zone.chain.congr (links i)
    · rw [physOffset]
      exact zone.chunk_iff
    · intro page member
      rcases zone.owned page member with ⟨bound, isUsed, notReserved⟩
      exact ⟨total ▸ bound, used i page member isUsed, notReserved⟩
    · rw [zones]
      exact zone.count
  pages_apart := inv.pages_apart

theorem of_zone (inv : SlabInv s reserved layout) (s' : SlabState) (i : Fin 8)
    (space : FrameSpace s'.phys s.physOffset reserved)
    (total : s'.phys.pmm.totalFrames = s.phys.pmm.totalFrames)
    (used : ∀ j, j ≠ i → ∀ page ∈ layout.pages j, s.phys.Used page → s'.phys.Used page)
    (links : ∀ j, j ≠ i → ∀ c ∈ layout.nodes j, s'.mem.load64 c = s.mem.load64 c)
    (zones : ∀ j, j ≠ i → s'.zones j = s.zones j) (physOffset : s'.physOffset = s.physOffset)
    {pages : Finset Nat} {nodes : List Nat} {live : Finset Nat}
    (zone : ZoneInv s' reserved i pages nodes live)
    (apart : ∀ j, j ≠ i → ∀ page ∈ pages, page ∉ layout.pages j) :
    SlabInv s' reserved (layout.set i pages nodes live) where
  space := physOffset ▸ space
  offset_aligned := physOffset ▸ inv.offset_aligned
  zone := fun j => by
    by_cases same : j = i
    · subst same
      rw [(layout.set_self j pages nodes live).1, (layout.set_self j pages nodes live).2.1,
        (layout.set_self j pages nodes live).2.2]
      exact zone
    · rcases layout.set_of_ne i pages nodes live same with ⟨pagesEq, nodesEq, liveEq⟩
      rw [pagesEq, nodesEq, liveEq]
      have old := inv.zone j
      refine ⟨by rw [zones j same]; exact old.chunkSize, ?_, old.nodup, ?_, old.apart, ?_, ?_⟩
      · rw [zones j same]
        exact old.chain.congr (links j same)
      · rw [physOffset]
        exact old.chunk_iff
      · intro page member
        rcases old.owned page member with ⟨bound, isUsed, notReserved⟩
        exact ⟨total ▸ bound, used j same page member isUsed, notReserved⟩
      · rw [zones j same]
        exact old.count
  pages_apart := fun j k page inJ inK => by
    by_cases sameJ : j = i
    · by_cases sameK : k = i
      · rw [sameJ, sameK]
      · rw [sameJ, (layout.set_self i pages nodes live).1] at inJ
        rw [(layout.set_of_ne i pages nodes live sameK).1] at inK
        exact absurd inK (apart k sameK page inJ)
    · rw [(layout.set_of_ne i pages nodes live sameJ).1] at inJ
      by_cases sameK : k = i
      · rw [sameK, (layout.set_self i pages nodes live).1] at inK
        exact absurd inJ (apart j sameJ page inK)
      · rw [(layout.set_of_ne i pages nodes live sameK).1] at inK
        exact inv.pages_apart j k page inJ inK

end SlabInv

end Slab
end AuraKernel
