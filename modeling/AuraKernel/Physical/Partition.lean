import AuraKernel.Physical.Confined
import Mathlib.Data.Set.Card

namespace AuraKernel
namespace Physical

open Machine

/-!
# Every frame in use belongs to somebody

The frames in use are the reserved ones and those of the holders, each of which
has a set of frames of its own.  A step of one holder that is confined to its set,
and accounts for every frame that it leaves in use, keeps this partition, whatever
the other holders are.
-/

/-- After the operation, a frame in use is in `own'`, or it was in use and is none of `own`. -/
def Accounts (before after : PhysState) (own own' : Set Nat) : Prop :=
  ∀ frame, frame < before.pmm.totalFrames → after.Used frame →
    frame ∈ own' ∨ before.Used frame ∧ frame ∉ own

/-- Each frame in use is reserved or belongs to exactly one holder. -/
structure Partition (phys : PhysState) (reserved : Set Nat) {ι : Type*} (domain : ι → Set Nat) :
    Prop where
  owned : ∀ i, ∀ frame ∈ domain i,
    frame < phys.pmm.totalFrames ∧ phys.Used frame ∧ frame ∉ reserved
  apart : ∀ i j, i ≠ j → ∀ frame ∈ domain i, frame ∉ domain j
  covers : ∀ frame, frame < phys.pmm.totalFrames → phys.Used frame →
    frame ∈ reserved ∨ ∃ i, frame ∈ domain i

section Frames

variable {before after : PhysState} {own own' reserved : Set Nat}

/-- An operation that releases nothing accounts for what it takes. -/
theorem accounts_of_used (grows : own ⊆ own')
    (used : ∀ frame, frame < before.pmm.totalFrames → after.Used frame →
      before.Used frame ∨ frame ∈ own') : Accounts before after own own' := by
  intro frame bound isUsed
  by_cases isNew : frame ∈ own'
  · exact Or.inl isNew
  · refine Or.inr ⟨(used frame bound isUsed).resolve_right isNew, ?_⟩
    exact fun member => isNew (grows member)

theorem Accounts.refl (phys : PhysState) (own : Set Nat) : Accounts phys phys own own :=
  accounts_of_used (fun _ member => member) fun _ _ used => Or.inl used

theorem Takes.accounts {taken : Set Nat} (takes : Takes before after taken) :
    Accounts before after own (own ∪ taken) := by
  apply accounts_of_used Set.subset_union_left
  intro frame _ used
  exact ((takes.used_iff frame).mp used).imp_right Or.inr

theorem Releases.accounts {released : Nat} (releases : Releases before after released) :
    Accounts before after own (own \ {released}) := by
  intro frame _ used
  rcases (releases.used_iff frame).mp used with ⟨wasUsed, different⟩
  by_cases member : frame ∈ own
  · exact Or.inl ⟨member, different⟩
  · exact Or.inr ⟨wasUsed, member⟩

end Frames

namespace Partition

variable {ι : Type*} {phys after : PhysState} {reserved own' : Set Nat} {domain : ι → Set Nat}
  {offset : Nat} {i j : ι} {frame : Nat}

/-- Another holder does not notice a step that is confined to the frames of `i`. -/
theorem spares (partition : Partition phys reserved domain)
    (space : FrameSpace phys offset reserved) (confined : Confined offset phys after (domain i) own')
    (other : j ≠ i) (member : frame ∈ domain j) :
    after.Used frame ∧ frame ∉ own' ∧
      ∀ place, offset + frame * pageSize ≤ place → place < offset + (frame + 1) * pageSize →
        after.mem place = phys.mem place := by
  rcases partition.owned j frame member with ⟨bound, used, notReserved⟩
  exact confined.spares space bound used notReserved (partition.apart j i other frame member)

variable [DecidableEq ι]

theorem step (partition : Partition phys reserved domain) (space : FrameSpace phys offset reserved)
    (confined : Confined offset phys after (domain i) own')
    (accounts : Accounts phys after (domain i) own')
    (owned : ∀ frame ∈ own', frame < after.pmm.totalFrames ∧ after.Used frame ∧ frame ∉ reserved) :
    Partition after reserved (Function.update domain i own') := by
  constructor
  case owned =>
    intro j frame member
    by_cases same : j = i
    · subst same
      rw [Function.update_self] at member
      exact owned frame member
    · rw [Function.update_of_ne same] at member
      rcases partition.owned j frame member with ⟨bound, _, notReserved⟩
      refine ⟨?_, (partition.spares space confined same member).1, notReserved⟩
      rw [confined.total_eq]
      exact bound
  case apart =>
    intro j k different frame member
    by_cases first : j = i
    · subst first
      rw [Function.update_self] at member
      rw [Function.update_of_ne different.symm]
      intro inOther
      exact (partition.spares space confined different.symm inOther).2.1 member
    · rw [Function.update_of_ne first] at member
      by_cases second : k = i
      · subst second
        rw [Function.update_self]
        exact (partition.spares space confined first member).2.1
      · rw [Function.update_of_ne second]
        exact partition.apart j k different frame member
  case covers =>
    intro frame bound used
    rw [confined.total_eq] at bound
    rcases accounts frame bound used with isNew | ⟨wasUsed, notOwn⟩
    · refine Or.inr ⟨i, ?_⟩
      rw [Function.update_self]
      exact isNew
    · refine (partition.covers frame bound wasUsed).imp_right ?_
      rintro ⟨j, member⟩
      have other : j ≠ i := by
        rintro rfl
        exact notOwn member
      refine ⟨j, ?_⟩
      rw [Function.update_of_ne other]
      exact member

/-- A holder hands a frame over to one that had none. -/
theorem handOver (partition : Partition phys reserved domain) (different : i ≠ j)
    (nothing : domain j = ∅) (member : frame ∈ domain i) :
    Partition phys reserved
      (Function.update (Function.update domain i (domain i \ {frame})) j {frame}) := by
  -- whoever has a frame now had it before, or has just got it
  have before : ∀ k, ∀ other ∈
      Function.update (Function.update domain i (domain i \ {frame})) j {frame} k,
      (k = j ∧ other = frame) ∨ (k ≠ j ∧ other ∈ domain k ∧ other ≠ frame) := by
    intro k other holds
    by_cases receiver : k = j
    · subst receiver
      rw [Function.update_self] at holds
      exact Or.inl ⟨rfl, holds⟩
    · rw [Function.update_of_ne receiver] at holds
      by_cases giver : k = i
      · subst giver
        rw [Function.update_self] at holds
        exact Or.inr ⟨receiver, holds.1, holds.2⟩
      · rw [Function.update_of_ne giver] at holds
        refine Or.inr ⟨receiver, holds, ?_⟩
        rintro rfl
        exact partition.apart k i giver other holds member
  constructor
  case owned =>
    intro k other holds
    rcases before k other holds with ⟨_, rfl⟩ | ⟨_, held, _⟩
    · exact partition.owned i other member
    · exact partition.owned k other held
  case apart =>
    intro k l apart other holds holds'
    rcases before k other holds with ⟨rfl, rfl⟩ | ⟨_, held, notFrame⟩
    · rcases before l other holds' with ⟨rfl, _⟩ | ⟨_, _, notFrame⟩
      · exact apart rfl
      · exact notFrame rfl
    · rcases before l other holds' with ⟨_, rfl⟩ | ⟨_, held', _⟩
      · exact notFrame rfl
      · exact partition.apart k l apart other held held'
  case covers =>
    intro other bound used
    refine (partition.covers other bound used).imp_right ?_
    rintro ⟨k, held⟩
    by_cases same : other = frame
    · refine ⟨j, ?_⟩
      rw [Function.update_self]
      exact same
    · have notReceiver : k ≠ j := by
        rintro rfl
        rw [nothing] at held
        exact held
      refine ⟨k, ?_⟩
      rw [Function.update_of_ne notReceiver]
      by_cases giver : k = i
      · subst giver
        rw [Function.update_self]
        exact ⟨held, same⟩
      · rw [Function.update_of_ne giver]
        exact held

omit [DecidableEq ι] in
/-- The frames in use are the reserved frames and those of the holders. -/
theorem used_iff (partition : Partition phys reserved domain)
    (space : FrameSpace phys offset reserved) (bound : frame < phys.pmm.totalFrames) :
    phys.Used frame ↔ frame ∈ reserved ∨ ∃ i, frame ∈ domain i := by
  constructor
  · exact partition.covers frame bound
  · rintro (member | ⟨i, member⟩)
    · exact space.reserved_used frame member bound
    · exact (partition.owned i frame member).2.1

omit [DecidableEq ι] in
/-- The counter of the frames in use leaves as many frames as nobody has. -/
theorem usedFrames_add (partition : Partition phys reserved domain)
    (space : FrameSpace phys offset reserved) :
    phys.pmm.usedFrames + Set.ncard {frame | frame < phys.pmm.totalFrames ∧ frame ∉ reserved ∧
      ∀ i, frame ∉ domain i} = phys.pmm.totalFrames := by
  have free : {frame | frame < phys.pmm.totalFrames ∧ frame ∉ reserved ∧ ∀ i, frame ∉ domain i} =
      ↑((Finset.range phys.pmm.totalFrames).filter fun frame => ¬ phys.Used frame) := by
    ext frame
    rw [Finset.mem_coe, Finset.mem_filter, Finset.mem_range, Set.mem_ofPred_eq]
    refine and_congr_right fun bound => ?_
    rw [partition.used_iff space bound, not_or, not_exists]
  rw [space.pmm.used_eq, Nat.count_eq_card_filter_range, free, Set.ncard_coe_finset,
    Finset.card_filter_add_card_filter_not, Finset.card_range]

end Partition

end Physical
end AuraKernel
