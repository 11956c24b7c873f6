import AuraKernel.Heap.Tiling

namespace AuraKernel
namespace Machine

/-!
# Merged tilings

A tiling is merged when no two neighbouring blocks are free.  The edits of a
tiling break this in one place at most, and the other edits repair it there: a
cut makes one pair of free neighbours, which disappears when its first half is
handed out; a block that is given back may form a pair on both sides, and one
merge on each side is enough to remove them.
-/

/-- A block and its successor are both free. -/
def FreePair (tag : Nat → Tag) (b : Nat) : Prop :=
  (tag b).used = 0 ∧ (tag b).next ≠ 0 ∧ (tag (tag b).next).used = 0

/-- No two neighbours are free. -/
def Merged (tag : Nat → Tag) (blocks : Finset Nat) : Prop := ∀ b ∈ blocks, ¬ FreePair tag b

/-- No two neighbours are free, except for pairs around `blk`. -/
def MergedAround (tag : Nat → Tag) (blocks : Finset Nat) (blk : Nat) : Prop :=
  ∀ b ∈ blocks, FreePair tag b → b = blk ∨ (tag b).next = blk

/-- No two neighbours are free, except for `blk` and its predecessor. -/
def MergedBehind (tag : Nat → Tag) (blocks : Finset Nat) (blk : Nat) : Prop :=
  ∀ b ∈ blocks, FreePair tag b → (tag b).next = blk

theorem FreePair.congr {tag tag' : Nat → Tag} {blocks : Finset Nat} {b : Nat}
    (pair : FreePair tag' b) (member : b ∈ blocks) (same : ∀ b ∈ blocks, tag' b = tag b)
    (nextMem : ∀ b ∈ blocks, (tag' b).next ≠ 0 → (tag' b).next ∈ blocks) :
    FreePair tag b ∧ (tag' b).next = (tag b).next := by
  rcases pair with ⟨free, nonzero, nextFree⟩
  rw [same _ (nextMem b member nonzero)] at nextFree
  rw [same b member] at free nonzero nextFree
  exact ⟨⟨free, nonzero, nextFree⟩, congrArg Tag.next (same b member)⟩

namespace Merged

variable {header grain : Nat} {tag tag' : Nat → Tag} {blocks : Finset Nat}
  {regions : Finset Region} {cur size : Nat}

theorem congr (merged : Merged tag blocks) (same : ∀ b ∈ blocks, tag' b = tag b)
    (nextMem : ∀ b ∈ blocks, (tag' b).next ≠ 0 → (tag' b).next ∈ blocks) : Merged tag' blocks :=
  fun b member pair => merged b member (pair.congr member same nextMem).1

/-- Cutting a free block in two and handing the first half out. -/
theorem split_mark (tiling : Tiling header grain tag blocks regions) (merged : Merged tag blocks)
    (positive : 0 < header) (member : cur ∈ blocks) (free : (tag cur).used = 0)
    (fresh : cur + header + size ∉ blocks) {used : UInt8} (inUse : used ≠ 0) :
    Merged (markTag (splitTag header tag cur size) cur used)
      (insert (cur + header + size) blocks) := by
  have others : ∀ b ∈ blocks, b ≠ cur →
      (markTag (splitTag header tag cur size) cur used b).used = (tag b).used ∧
        (markTag (splitTag header tag cur size) cur used b).next = (tag b).next := by
    intro b inside different
    have notNew : b ≠ cur + header + size := fun same => fresh (same ▸ inside)
    rw [markTag_used, if_neg different, (markTag_size _ cur b used).2.1]
    exact ⟨(splitTag_other different notNew).2, (splitTag_links different notNew).1⟩
  have curUsed : (markTag (splitTag header tag cur size) cur used cur).used ≠ 0 := by
    rw [markTag_used, if_pos rfl]
    exact inUse
  have newNext : (markTag (splitTag header tag cur size) cur used (cur + header + size)).next =
      (tag cur).next := by
    rw [(markTag_size _ cur _ used).2.1, splitTag_new positive]
  -- whatever is free behind a block was free there before
  have nextFree : ∀ c ∈ blocks,
      (markTag (splitTag header tag cur size) cur used c).used = 0 → (tag c).used = 0 := by
    intro c inside isFree
    by_cases isCur : c = cur
    · rw [isCur]
      exact free
    · rw [← (others c inside isCur).1]
      exact isFree
  rintro b inside ⟨isFree, nonzero, next⟩
  rcases Finset.mem_insert.mp inside with rfl | old
  · rw [newNext] at nonzero next
    exact merged cur member ⟨free, nonzero, nextFree _ (tiling.next_mem cur member nonzero) next⟩
  · by_cases isCur : b = cur
    · exact curUsed (isCur ▸ isFree)
    · rw [(others b old isCur).1] at isFree
      rw [(others b old isCur).2] at nonzero next
      exact merged b old ⟨isFree, nonzero, nextFree _ (tiling.next_mem b old nonzero) next⟩

theorem mark (merged : Merged tag blocks) {used : UInt8} (inUse : used ≠ 0) :
    Merged (markTag tag cur used) blocks := by
  have freeBefore : ∀ c, (markTag tag cur used c).used = 0 → (tag c).used = 0 := by
    intro c isFree
    rw [markTag_used] at isFree
    by_cases isCur : c = cur
    · rw [if_pos isCur] at isFree
      exact absurd isFree inUse
    · rw [if_neg isCur] at isFree
      exact isFree
  rintro b member ⟨free, nonzero, nextFree⟩
  rw [(markTag_size tag cur b used).2.1] at nonzero nextFree
  exact merged b member ⟨freeBefore b free, nonzero, freeBefore _ nextFree⟩

theorem release (merged : Merged tag blocks) (blk : Nat) :
    MergedAround (markTag tag blk 0) blocks blk := by
  rintro b member ⟨free, nonzero, nextFree⟩
  rw [(markTag_size tag blk b 0).2.1] at nonzero nextFree ⊢
  by_contra elsewhere
  rcases not_or.mp elsewhere with ⟨notBlk, nextNotBlk⟩
  rw [markTag_used, if_neg notBlk] at free
  rw [markTag_used, if_neg nextNotBlk] at nextFree
  exact merged b member ⟨free, nonzero, nextFree⟩

theorem extend (tiling : Tiling header grain tag blocks regions) (merged : Merged tag blocks)
    {r : Region} (newTag : tag' r.start = wholeTag header r)
    (oldTag : ∀ b ∈ blocks, tag' b = tag b) : Merged tag' (insert r.start blocks) := by
  intro b inside pair
  rcases Finset.mem_insert.mp inside with rfl | old
  · have nonzero := pair.2.1
    rw [newTag] at nonzero
    exact nonzero rfl
  · refine merged.congr oldTag (fun c inside nonzero => ?_) b old pair
    rw [oldTag c inside] at nonzero ⊢
    exact tiling.next_mem c inside nonzero

end Merged

section Repair

variable {header grain : Nat} {tag : Nat → Tag} {blocks : Finset Nat} {regions : Finset Region}
  {blk : Nat}

theorem MergedAround.congr {tag' : Nat → Tag} (merged : MergedAround tag blocks blk)
    (same : ∀ b ∈ blocks, tag' b = tag b)
    (nextMem : ∀ b ∈ blocks, (tag' b).next ≠ 0 → (tag' b).next ∈ blocks) :
    MergedAround tag' blocks blk := by
  intro b member pair
  rcases pair.congr member same nextMem with ⟨old, nextEq⟩
  rw [nextEq]
  exact merged b member old

theorem MergedBehind.congr {tag' : Nat → Tag} (merged : MergedBehind tag blocks blk)
    (same : ∀ b ∈ blocks, tag' b = tag b)
    (nextMem : ∀ b ∈ blocks, (tag' b).next ≠ 0 → (tag' b).next ∈ blocks) :
    MergedBehind tag' blocks blk := by
  intro b member pair
  rcases pair.congr member same nextMem with ⟨old, nextEq⟩
  rw [nextEq]
  exact merged b member old

/-- No merge to the right is needed. -/
theorem MergedAround.stay (merged : MergedAround tag blocks blk)
    (alone : ¬ ((tag blk).next ≠ 0 ∧ (tag (tag blk).next).used = 0)) :
    MergedBehind tag blocks blk := by
  intro b member pair
  rcases merged b member pair with rfl | behind
  · exact absurd ⟨pair.2.1, pair.2.2⟩ alone
  · exact behind

/-- No merge to the left is needed. -/
theorem MergedBehind.stay (tiling : Tiling header grain tag blocks regions)
    (merged : MergedBehind tag blocks blk)
    (alone : ¬ ((tag blk).prev ≠ 0 ∧ (tag (tag blk).prev).used = 0)) : Merged tag blocks := by
  intro b member pair
  have behind := merged b member pair
  rcases tiling.next_cases b member with none | ⟨_, _, back⟩
  · exact pair.2.1 none
  · rw [behind] at back
    refine alone ⟨?_, ?_⟩
    · rw [back]
      exact tiling.nonzero b member
    · rw [back]
      exact pair.1

/-- What a merge changes about pairs of free neighbours: the successor of the
left block is now that of the right one. -/
theorem freePair_absorb (tiling : Tiling header grain tag blocks regions) {left right b : Nat}
    (leftMem : left ∈ blocks) (member : b ∈ blocks.erase right) (adjacent : (tag left).next = right)
    (rightFree : (tag right).used = 0) (pair : FreePair (absorbTag header tag left right) b) :
    (b = left ∧ FreePair tag right ∧
        (absorbTag header tag left right b).next = (tag right).next) ∨
      (b ≠ left ∧ FreePair tag b ∧ (absorbTag header tag left right b).next = (tag b).next ∧
        (tag b).next ≠ right) := by
  have usedEq : ∀ c, (absorbTag header tag left right c).used = (tag c).used := by
    intro c
    by_cases isLeft : c = left
    · rw [isLeft, absorbTag_self]
    · exact (absorbTag_other isLeft).2
  rcases pair with ⟨free, nonzero, nextFree⟩
  rw [usedEq] at free nextFree
  by_cases isLeft : b = left
  · have nextEq : (absorbTag header tag left right b).next = (tag right).next := by
      rw [isLeft, absorbTag_self]
    rw [nextEq] at nonzero nextFree
    exact Or.inl ⟨isLeft, ⟨rightFree, nonzero, nextFree⟩, nextEq⟩
  · have nextEq := (@absorbTag_links header tag left right b isLeft).1
    rw [nextEq] at nonzero nextFree
    refine Or.inr ⟨isLeft, ⟨free, nonzero, nextFree⟩, nextEq, fun toRight => isLeft ?_⟩
    have old := Finset.mem_of_mem_erase member
    exact tiling.eq_of_next old leftMem (tiling.next_mem b old nonzero) rfl
      (adjacent.trans toRight.symm)

theorem MergedAround.absorb (tiling : Tiling header grain tag blocks regions)
    (merged : MergedAround tag blocks blk) (positive : 0 < header) (member : blk ∈ blocks)
    {right : Nat} (rightMem : right ∈ blocks)
    (rightFree : (tag right).used = 0) (adjacent : (tag blk).next = right) :
    MergedBehind (absorbTag header tag blk right) (blocks.erase right) blk := by
  have order : ∀ c ∈ blocks, (tag c).next ≠ 0 → c < (tag c).next := by
    intro c inside nonzero
    rcases tiling.next_cases c inside with none | ⟨_, place, _⟩
    · exact absurd none nonzero
    · omega
  intro b inside pair
  rcases freePair_absorb tiling member inside adjacent rightFree pair with
    ⟨_, old, _⟩ | ⟨notBlk, old, nextEq, _⟩
  · -- the pair behind `right` was none before, since neither half is `blk`
    have first := order blk member (by rw [adjacent]; exact tiling.nonzero right rightMem)
    have second := order right rightMem old.2.1
    rcases merged right rightMem old with same | same <;> omega
  · rw [nextEq]
    exact (merged b (Finset.mem_of_mem_erase inside) old).resolve_left notBlk

theorem MergedBehind.absorb (tiling : Tiling header grain tag blocks regions)
    (merged : MergedBehind tag blocks blk) (positive : 0 < header) (member : blk ∈ blocks)
    (free : (tag blk).used = 0) {left : Nat} (leftMem : left ∈ blocks)
    (adjacent : (tag left).next = blk) :
    Merged (absorbTag header tag left blk) (blocks.erase blk) := by
  intro b inside pair
  rcases freePair_absorb tiling leftMem inside adjacent free pair with
    ⟨_, old, _⟩ | ⟨_, old, _, notBlk⟩
  · have behind := merged blk member old
    rcases tiling.next_cases blk member with none | ⟨_, place, _⟩
    · exact old.2.1 none
    · omega
  · exact notBlk (merged b (Finset.mem_of_mem_erase inside) old)

/-! ## Blocks behind one in use -/

/-- The left neighbour of a block, if it has one, is in use. -/
def Guarded (tag : Nat → Tag) (b : Nat) : Prop :=
  (tag b).prev ≠ 0 → (tag (tag b).prev).used ≠ 0

theorem Guarded.congr {tag' : Nat → Tag} (tiling' : Tiling header grain tag' blocks regions)
    (guarded : Guarded tag blk) (member : blk ∈ blocks) (same : ∀ b ∈ blocks, tag' b = tag b) :
    Guarded tag' blk := by
  intro nonzero
  rcases tiling'.prev_cases blk member with none | ⟨inside, _⟩
  · exact absurd none nonzero
  · rw [same _ inside]
    rw [same blk member] at nonzero ⊢
    exact guarded nonzero

/-- In a merged tiling, the left neighbour of a free block is in use. -/
theorem Merged.guarded (tiling : Tiling header grain tag blocks regions)
    (merged : Merged tag blocks) (member : blk ∈ blocks) (free : (tag blk).used = 0) :
    Guarded tag blk := by
  intro nonzero prevFree
  rcases tiling.prev_cases blk member with none | ⟨inside, forth⟩
  · exact nonzero none
  · refine merged _ inside ⟨prevFree, ?_, ?_⟩
    · rw [forth]
      exact tiling.nonzero blk member
    · rw [forth]
      exact free

/-- Cutting the block keeps its left neighbour. -/
theorem Guarded.split (tiling : Tiling header grain tag blocks regions) (positive : 0 < header)
    (guarded : Guarded tag blk) (member : blk ∈ blocks) {size : Nat}
    (fresh : blk + header + size ∉ blocks) : Guarded (splitTag header tag blk size) blk := by
  intro nonzero
  rw [splitTag_self] at nonzero ⊢
  rcases tiling.prev_cases blk member with none | ⟨inside, _⟩
  · exact absurd none nonzero
  · have notNew : (tag blk).prev ≠ blk + header + size := fun same => fresh (same ▸ inside)
    rw [(splitTag_other (tiling.prev_ne positive member) notNew).2]
    exact guarded nonzero

/-- Marking the block does not change its left neighbour. -/
theorem Guarded.mark (tiling : Tiling header grain tag blocks regions) (positive : 0 < header)
    (guarded : Guarded tag blk) (member : blk ∈ blocks) (used : UInt8) :
    Guarded (markTag tag blk used) blk := by
  intro nonzero
  rw [(markTag_size tag blk blk used).2.2] at nonzero ⊢
  rw [markTag_used, if_neg (tiling.prev_ne positive member)]
  exact guarded nonzero

/-- Neither does a merge to the right. -/
theorem Guarded.absorb (tiling : Tiling header grain tag blocks regions) (positive : 0 < header)
    (guarded : Guarded tag blk) (member : blk ∈ blocks) (right : Nat) :
    Guarded (absorbTag header tag blk right) blk := by
  intro nonzero
  rw [absorbTag_self] at nonzero ⊢
  rw [(absorbTag_other (tiling.prev_ne positive member)).2]
  exact guarded nonzero

end Repair

end Machine
end AuraKernel
