import AuraKernel.Physical.Handout

namespace AuraKernel
namespace Physical

open Machine

/-!
# Components with frames of their own

Every client of the manager works in frames that it has taken.  An operation is
confined to its frames if it takes only free ones, releases only its own, and
writes nowhere else but into the bitmap.  Frames of somebody else then stay in
use, stay apart, and keep their memory.
-/

/-- An operation of a component that has the frames `own` before and `own'` after it. -/
structure Confined (offset : Nat) (before after : PhysState) (own own' : Set Nat) : Prop where
  total_eq : after.pmm.totalFrames = before.pmm.totalFrames
  new_free : ∀ frame ∈ own', frame ∈ own ∨ before.Free frame
  used_keeps : ∀ frame, frame < before.pmm.totalFrames → before.Used frame → frame ∉ own →
    after.Used frame
  mem_eq : ∀ place, place ∉ before.bitmapBytes →
    (∀ frame, frame ∈ own ∨ frame ∈ own' → place < offset + frame * pageSize ∨
      offset + (frame + 1) * pageSize ≤ place) → after.mem place = before.mem place

section Frames

variable {offset : Nat} {before after : PhysState} {own own' reserved : Set Nat}

/-- An operation that writes into frames of its own and leaves the manager alone. -/
theorem confined_of_write {mem : Mem}
    (used : ∀ frame, frame < before.pmm.totalFrames → before.Used frame →
      ({ before with mem := mem } : PhysState).Used frame)
    (only : ∀ place, (∀ frame ∈ own, place < offset + frame * pageSize ∨
      offset + (frame + 1) * pageSize ≤ place) → mem place = before.mem place) :
    Confined offset before { before with mem := mem } own own where
  total_eq := rfl
  new_free := fun _ member => Or.inl member
  used_keeps := fun frame bound isUsed _ => used frame bound isUsed
  mem_eq := fun place _ away => only place fun frame member => away frame (Or.inl member)

/-- Taking frames is confined to the frames that are taken. -/
theorem Takes.confined {taken : Set Nat} (takes : Takes before after taken) :
    Confined offset before after own (own ∪ taken) where
  total_eq := takes.total_eq
  new_free := fun frame member => member.imp_right fun isNew => (takes.was_free frame isNew).2
  used_keeps := fun frame _ used _ => (takes.used_iff frame).mpr (Or.inl used)
  mem_eq := fun place notBitmap _ => takes.mem_eq place notBitmap

/-- Releasing a frame is confined to this frame. -/
theorem Releases.confined {released : Nat} (releases : Releases before after released)
    (member : released ∈ own) : Confined offset before after own (own \ {released}) where
  total_eq := releases.total_eq
  new_free := fun _ kept => Or.inl kept.1
  used_keeps := fun frame _ used notOwn =>
    (releases.used_iff frame).mpr ⟨used, fun same => notOwn (same ▸ member)⟩
  mem_eq := fun place notBitmap _ => releases.mem_eq place notBitmap

theorem Confined.refl (offset : Nat) (phys : PhysState) (own : Set Nat) :
    Confined offset phys phys own own where
  total_eq := rfl
  new_free := fun _ member => Or.inl member
  used_keeps := fun _ _ used _ => used
  mem_eq := fun _ _ _ => rfl

/-- A frame of somebody else does not notice the operation. -/
theorem Confined.spares (confined : Confined offset before after own own')
    (space : FrameSpace before offset reserved) {frame : Nat}
    (bound : frame < before.pmm.totalFrames) (used : before.Used frame)
    (notReserved : frame ∉ reserved) (notOwn : frame ∉ own) :
    after.Used frame ∧ frame ∉ own' ∧
      ∀ place, offset + frame * pageSize ≤ place → place < offset + (frame + 1) * pageSize →
        after.mem place = before.mem place := by
  have notOwn' : frame ∉ own' := by
    intro member
    rcases confined.new_free frame member with old | free
    · exact notOwn old
    · exact (PhysState.not_used_iff _ _).mpr free used
  refine ⟨confined.used_keeps frame bound used notOwn, notOwn', fun place low high => ?_⟩
  apply confined.mem_eq place
  · intro inBitmap
    exact notReserved (space.bitmap_reserved frame bound place inBitmap low high)
  · intro other owned
    have different : other ≠ frame := by
      rintro rfl
      exact owned.elim notOwn notOwn'
    unfold pageSize at *
    omega

/-- The callers of the manager keep their frames while another component works. -/
theorem CustodyInv.other {handed : Set Nat} {total : Nat}
    (inv : CustodyInv ⟨before, handed⟩ offset total reserved)
    (confined : Confined offset before after own own') (space : FrameSpace after offset reserved)
    (apart : ∀ frame ∈ handed, frame ∉ own) :
    CustodyInv ⟨after, handed⟩ offset total reserved where
  space := space
  total_eq := confined.total_eq.trans inv.total_eq
  handed := by
    intro frame held
    rcases inv.handed frame held with ⟨bound, used, notReserved⟩
    have inMemory : frame < before.pmm.totalFrames := inv.total_eq.symm ▸ bound
    have spared := confined.spares inv.space inMemory used notReserved (apart frame held)
    exact ⟨bound, spared.1, notReserved⟩

end Frames

end Physical
end AuraKernel
