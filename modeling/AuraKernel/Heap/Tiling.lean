import AuraKernel.Machine.LinkedList
import Mathlib.Algebra.BigOperators.Group.Finset.Basic
import Mathlib.Algebra.Order.BigOperators.Group.Finset

namespace AuraKernel
namespace Machine

/-!
# Regions tiled by blocks with boundary tags

A region of memory is cut into adjacent blocks.  Every block starts with a
header of fixed length that records the size of the payload behind it and the
addresses of the two adjacent blocks, 0 at the region ends.  `Tiling` states
this for every block separately, so that the three edits of an allocator,
splitting a block, merging two neighbours and adding a region, have local
proofs.  That each region is one chain of blocks without gaps is a consequence.
-/

/-- What the header of a block says about its place. -/
structure Tag where
  size : Nat
  used : UInt8
  next : Nat
  prev : Nat
deriving DecidableEq, Repr

/-- The addresses from `start` up to `stop`. -/
structure Region where
  start : Nat
  stop : Nat
deriving DecidableEq, Repr

/-- The blocks at the addresses `blocks` with tags `tag` tile `regions`.  Sizes
are multiples of `grain`. -/
structure Tiling (header grain : Nat) (tag : Nat → Tag) (blocks : Finset Nat)
    (regions : Finset Region) : Prop where
  nonzero : ∀ b ∈ blocks, b ≠ 0
  grain_dvd : ∀ b ∈ blocks, grain ∣ (tag b).size
  region : ∀ b ∈ blocks, ∃ r ∈ regions, r.start ≤ b ∧ b + header + (tag b).size ≤ r.stop ∧
    ((tag b).prev = 0 ↔ b = r.start) ∧ ((tag b).next = 0 ↔ b + header + (tag b).size = r.stop)
  next_cases : ∀ b ∈ blocks, (tag b).next = 0 ∨ (tag b).next ∈ blocks ∧
    (tag b).next = b + header + (tag b).size ∧ (tag (tag b).next).prev = b
  prev_cases : ∀ b ∈ blocks, (tag b).prev = 0 ∨ (tag b).prev ∈ blocks ∧
    (tag (tag b).prev).next = b
  apart : ∀ b ∈ blocks, ∀ c ∈ blocks, b < c → b + header + (tag b).size ≤ c
  starts : ∀ r ∈ regions, r.start < r.stop ∧ r.start ∈ blocks
  regions_apart : ∀ r ∈ regions, ∀ t ∈ regions, r ≠ t → r.stop ≤ t.start ∨ t.stop ≤ r.start

/-! ## The edits -/

/-- The tags after `cur` is cut behind `size` bytes of payload. -/
def splitTag (header : Nat) (tag : Nat → Tag) (cur size : Nat) : Nat → Tag := fun b =>
  if b = cur then { tag cur with size := size, next := cur + header + size }
  else if b = cur + header + size then
    { size := (tag cur).size - size - header, used := 0, next := (tag cur).next, prev := cur }
  else if b = (tag cur).next then { tag b with prev := cur + header + size }
  else tag b

/-- The tags after `left` has taken over the block `right` behind it. -/
def absorbTag (header : Nat) (tag : Nat → Tag) (left right : Nat) : Nat → Tag := fun b =>
  if b = left then
    { tag left with
      size := (tag left).size + (header + (tag right).size)
      next := (tag right).next }
  else if b = (tag right).next then { tag b with prev := left }
  else tag b

/-- The tags after a block changed hands. -/
def markTag (tag : Nat → Tag) (cur : Nat) (used : UInt8) : Nat → Tag := fun b =>
  if b = cur then { tag b with used := used } else tag b

/-- The tag of a region that is a single block. -/
def wholeTag (header : Nat) (r : Region) : Tag :=
  { size := r.stop - r.start - header, used := 0, next := 0, prev := 0 }

section Tags

variable {header : Nat} {tag : Nat → Tag}

theorem splitTag_self (header : Nat) (tag : Nat → Tag) (cur size : Nat) :
    splitTag header tag cur size cur = { tag cur with size := size, next := cur + header + size } :=
  if_pos rfl

theorem splitTag_new (positive : 0 < header) (tag : Nat → Tag) (cur size : Nat) :
    splitTag header tag cur size (cur + header + size) =
      { size := (tag cur).size - size - header, used := 0, next := (tag cur).next,
        prev := cur } := by
  unfold splitTag
  rw [if_neg (by omega), if_pos rfl]

theorem splitTag_other {cur size b : Nat} (notCur : b ≠ cur) (notNew : b ≠ cur + header + size) :
    (splitTag header tag cur size b).size = (tag b).size ∧
      (splitTag header tag cur size b).used = (tag b).used := by
  unfold splitTag
  rw [if_neg notCur, if_neg notNew]
  by_cases after : b = (tag cur).next
  · rw [if_pos after]
    exact ⟨rfl, rfl⟩
  · rw [if_neg after]
    exact ⟨rfl, rfl⟩

theorem splitTag_links {cur size b : Nat} (notCur : b ≠ cur) (notNew : b ≠ cur + header + size) :
    (splitTag header tag cur size b).next = (tag b).next ∧
      (splitTag header tag cur size b).prev =
        if b = (tag cur).next then cur + header + size else (tag b).prev := by
  unfold splitTag
  rw [if_neg notCur, if_neg notNew]
  by_cases after : b = (tag cur).next
  · rw [if_pos after, if_pos after]
    exact ⟨rfl, rfl⟩
  · rw [if_neg after, if_neg after]
    exact ⟨rfl, rfl⟩

theorem absorbTag_self (header : Nat) (tag : Nat → Tag) (left right : Nat) :
    absorbTag header tag left right left =
      { tag left with
        size := (tag left).size + (header + (tag right).size), next := (tag right).next } :=
  if_pos rfl

theorem absorbTag_other {left right b : Nat} (notLeft : b ≠ left) :
    (absorbTag header tag left right b).size = (tag b).size ∧
      (absorbTag header tag left right b).used = (tag b).used := by
  unfold absorbTag
  rw [if_neg notLeft]
  by_cases after : b = (tag right).next
  · rw [if_pos after]
    exact ⟨rfl, rfl⟩
  · rw [if_neg after]
    exact ⟨rfl, rfl⟩

theorem absorbTag_links {left right b : Nat} (notLeft : b ≠ left) :
    (absorbTag header tag left right b).next = (tag b).next ∧
      (absorbTag header tag left right b).prev =
        if b = (tag right).next then left else (tag b).prev := by
  unfold absorbTag
  rw [if_neg notLeft]
  by_cases after : b = (tag right).next
  · rw [if_pos after, if_pos after]
    exact ⟨rfl, rfl⟩
  · rw [if_neg after, if_neg after]
    exact ⟨rfl, rfl⟩

theorem markTag_size (tag : Nat → Tag) (cur b : Nat) (used : UInt8) :
    (markTag tag cur used b).size = (tag b).size ∧ (markTag tag cur used b).next = (tag b).next ∧
      (markTag tag cur used b).prev = (tag b).prev := by
  unfold markTag
  by_cases same : b = cur
  · rw [if_pos same]
    exact ⟨rfl, rfl, rfl⟩
  · rw [if_neg same]
    exact ⟨rfl, rfl, rfl⟩

theorem markTag_used (tag : Nat → Tag) (cur b : Nat) (used : UInt8) :
    (markTag tag cur used b).used = if b = cur then used else (tag b).used := by
  unfold markTag
  by_cases same : b = cur
  · rw [if_pos same, if_pos same]
  · rw [if_neg same, if_neg same]

end Tags

namespace Tiling

variable {header grain : Nat} {tag tag' : Nat → Tag} {blocks : Finset Nat} {regions : Finset Region}

/-- Only the tags of the blocks matter, and of these not whether they are used. -/
theorem congr (tiling : Tiling header grain tag blocks regions)
    (size : ∀ b ∈ blocks, (tag' b).size = (tag b).size)
    (next : ∀ b ∈ blocks, (tag' b).next = (tag b).next)
    (prev : ∀ b ∈ blocks, (tag' b).prev = (tag b).prev) :
    Tiling header grain tag' blocks regions where
  nonzero := tiling.nonzero
  grain_dvd := fun b member => by
    rw [size b member]
    exact tiling.grain_dvd b member
  region := fun b member => by
    rw [size b member, next b member, prev b member]
    exact tiling.region b member
  next_cases := fun b member => by
    rw [size b member, next b member]
    rcases tiling.next_cases b member with last | ⟨inside, place, back⟩
    · exact Or.inl last
    · exact Or.inr ⟨inside, place, (prev _ inside).trans back⟩
  prev_cases := fun b member => by
    rw [prev b member]
    rcases tiling.prev_cases b member with first | ⟨inside, forth⟩
    · exact Or.inl first
    · exact Or.inr ⟨inside, (next _ inside).trans forth⟩
  apart := fun b member c member' less => by
    rw [size b member]
    exact tiling.apart b member c member' less
  starts := tiling.starts
  regions_apart := tiling.regions_apart

/-- Where a block lies decides its region. -/
theorem region_unique (tiling : Tiling header grain tag blocks regions) {r t : Region}
    (rMem : r ∈ regions) (tMem : t ∈ regions) {place : Nat} (inR : r.start ≤ place ∧ place < r.stop)
    (inT : t.start ≤ place ∧ place < t.stop) : r = t := by
  by_contra different
  rcases tiling.regions_apart r rMem t tMem different with before | before <;> omega

/-- Nothing of another block lies inside the extent of a block. -/
theorem not_mem_inside (tiling : Tiling header grain tag blocks regions) {b place : Nat}
    (member : b ∈ blocks) (low : b < place) (high : place < b + header + (tag b).size) :
    place ∉ blocks := by
  intro inside
  have apart := tiling.apart b member place inside low
  omega

/-- Of two blocks one ends before the other begins. -/
theorem apart_or (tiling : Tiling header grain tag blocks regions) {b c : Nat} (member : b ∈ blocks)
    (member' : c ∈ blocks) (different : b ≠ c) :
    b + header + (tag b).size ≤ c ∨ c + header + (tag c).size ≤ b := by
  rcases Nat.lt_or_gt_of_ne different with less | greater
  · exact Or.inl (tiling.apart b member c member' less)
  · exact Or.inr (tiling.apart c member' b member greater)

/-- A block and the one that it names as the next. -/
theorem at_next (tiling : Tiling header grain tag blocks regions) {b c : Nat} (member : b ∈ blocks)
    (nextMem : c ∈ blocks) (next : (tag b).next = c) :
    c = b + header + (tag b).size ∧ (tag c).prev = b := by
  rcases tiling.next_cases b member with none | ⟨_, place, back⟩
  · exact absurd (next.symm.trans none) (tiling.nonzero c nextMem)
  · rw [next] at place back
    exact ⟨place, back⟩

theorem next_mem (tiling : Tiling header grain tag blocks regions) :
    ∀ b ∈ blocks, (tag b).next ≠ 0 → (tag b).next ∈ blocks := by
  intro b member nonzero
  rcases tiling.next_cases b member with none | ⟨nextMem, _⟩
  · exact absurd none nonzero
  · exact nextMem

/-- Two blocks with one successor are the same. -/
theorem eq_of_next (tiling : Tiling header grain tag blocks regions) {b c next : Nat}
    (member : b ∈ blocks) (member' : c ∈ blocks) (nextMem : next ∈ blocks)
    (toNext : (tag b).next = next) (toNext' : (tag c).next = next) : b = c := by
  have back := (tiling.at_next member nextMem toNext).2
  have back' := (tiling.at_next member' nextMem toNext').2
  exact back.symm.trans back'

/-- The successor of a block lies behind it. -/
theorem next_ne_of_le (tiling : Tiling header grain tag blocks regions) (positive : 0 < header)
    {b c : Nat} (member : b ∈ blocks) (member' : c ∈ blocks) (le : c ≤ b) : (tag b).next ≠ c := by
  intro loop
  have place := (tiling.at_next member member' loop).1
  omega

theorem next_ne (tiling : Tiling header grain tag blocks regions) (positive : 0 < header) {b : Nat}
    (member : b ∈ blocks) : (tag b).next ≠ b :=
  tiling.next_ne_of_le positive member member (Nat.le_refl b)

theorem prev_ne (tiling : Tiling header grain tag blocks regions) (positive : 0 < header) {b : Nat}
    (member : b ∈ blocks) : (tag b).prev ≠ b := by
  intro loop
  rcases tiling.prev_cases b member with none | ⟨_, forth⟩
  · exact tiling.nonzero b member (loop.symm.trans none)
  · rw [loop] at forth
    exact tiling.next_ne positive member forth

/-! ### Splitting a block -/

section Split

variable {cur size b : Nat}

theorem split_fresh (tiling : Tiling header grain tag blocks regions) (positive : 0 < header)
    (member : cur ∈ blocks) (room : size + header ≤ (tag cur).size) :
    cur + header + size ∉ blocks :=
  tiling.not_mem_inside member (by omega) (by omega)

theorem split_region (tiling : Tiling header grain tag blocks regions) (positive : 0 < header)
    (member : cur ∈ blocks) (room : size + header ≤ (tag cur).size)
    (inside : b ∈ insert (cur + header + size) blocks) :
    ∃ r ∈ regions, r.start ≤ b ∧ b + header + (splitTag header tag cur size b).size ≤ r.stop ∧
      ((splitTag header tag cur size b).prev = 0 ↔ b = r.start) ∧
      ((splitTag header tag cur size b).next = 0 ↔
        b + header + (splitTag header tag cur size b).size = r.stop) := by
  have fresh := tiling.split_fresh positive member room
  rcases tiling.region cur member with ⟨r, rMem, low, high, first, last⟩
  rcases Finset.mem_insert.mp inside with rfl | old
  · have curEnd : cur + header + size + header + ((tag cur).size - size - header) =
        cur + header + (tag cur).size := by omega
    rw [splitTag_new positive]
    refine ⟨r, rMem, by omega, ?_, ?_, ?_⟩
    · exact Nat.le_trans (Nat.le_of_eq curEnd) high
    · exact iff_of_false (tiling.nonzero cur member) (by omega)
    · rw [curEnd]
      exact last
  · by_cases same : b = cur
    · subst same
      rw [splitTag_self]
      refine ⟨r, rMem, low, ?_, first, ?_⟩
      · dsimp only
        omega
      · exact iff_of_false (by dsimp only; omega) (by dsimp only; omega)
    · have notNew : b ≠ cur + header + size := fun isNew => fresh (isNew ▸ old)
      rcases tiling.region b old with ⟨t, tMem, low', high', first', last'⟩
      rw [(splitTag_other same notNew).1, (splitTag_links same notNew).1,
        (splitTag_links same notNew).2]
      refine ⟨t, tMem, low', high', ?_, last'⟩
      by_cases after : b = (tag cur).next
      · rw [if_pos after, ← first', (tiling.at_next member old after.symm).2]
        exact iff_of_false (by omega) (tiling.nonzero cur member)
      · rw [if_neg after]
        exact first'

theorem split_next (tiling : Tiling header grain tag blocks regions) (positive : 0 < header)
    (member : cur ∈ blocks) (room : size + header ≤ (tag cur).size)
    (inside : b ∈ insert (cur + header + size) blocks) :
    (splitTag header tag cur size b).next = 0 ∨
      (splitTag header tag cur size b).next ∈ insert (cur + header + size) blocks ∧
      (splitTag header tag cur size b).next =
        b + header + (splitTag header tag cur size b).size ∧
      (splitTag header tag cur size (splitTag header tag cur size b).next).prev = b := by
  have fresh := tiling.split_fresh positive member room
  have old_ne_new : ∀ c ∈ blocks, c ≠ cur + header + size := fun c old isNew => fresh (isNew ▸ old)
  rcases Finset.mem_insert.mp inside with rfl | old
  · rw [splitTag_new positive]
    dsimp only
    rcases tiling.next_cases cur member with none | ⟨nextMem, place, back⟩
    · exact Or.inl none
    · refine Or.inr ⟨Finset.mem_insert_of_mem nextMem, by omega, ?_⟩
      rw [(splitTag_links (tiling.next_ne positive member) (old_ne_new _ nextMem)).2, if_pos rfl]
  · by_cases same : b = cur
    · subst same
      rw [splitTag_self]
      dsimp only
      refine Or.inr ⟨Finset.mem_insert_self _ _, rfl, ?_⟩
      rw [splitTag_new positive]
    · rw [(splitTag_other same (old_ne_new b old)).1, (splitTag_links same (old_ne_new b old)).1]
      rcases tiling.next_cases b old with none | ⟨nextMem, place, back⟩
      · exact Or.inl none
      · refine Or.inr ⟨Finset.mem_insert_of_mem nextMem, place, ?_⟩
        by_cases isCur : (tag b).next = cur
        · rw [isCur, splitTag_self]
          rw [isCur] at back
          exact back
        · rw [(splitTag_links isCur (old_ne_new _ nextMem)).2, if_neg, back]
          intro both
          exact same (tiling.eq_of_next old member nextMem rfl both.symm)

theorem split_prev (tiling : Tiling header grain tag blocks regions) (positive : 0 < header)
    (member : cur ∈ blocks) (room : size + header ≤ (tag cur).size)
    (inside : b ∈ insert (cur + header + size) blocks) :
    (splitTag header tag cur size b).prev = 0 ∨
      (splitTag header tag cur size b).prev ∈ insert (cur + header + size) blocks ∧
      (splitTag header tag cur size (splitTag header tag cur size b).prev).next = b := by
  have fresh := tiling.split_fresh positive member room
  have old_ne_new : ∀ c ∈ blocks, c ≠ cur + header + size := fun c old isNew => fresh (isNew ▸ old)
  rcases Finset.mem_insert.mp inside with rfl | old
  · rw [splitTag_new positive]
    refine Or.inr ⟨Finset.mem_insert_of_mem member, ?_⟩
    dsimp only
    rw [splitTag_self]
  · by_cases same : b = cur
    · subst same
      rw [splitTag_self]
      dsimp only
      rcases tiling.prev_cases b old with none | ⟨prevMem, forth⟩
      · exact Or.inl none
      · refine Or.inr ⟨Finset.mem_insert_of_mem prevMem, ?_⟩
        rw [(splitTag_links (tiling.prev_ne positive old) (old_ne_new _ prevMem)).1]
        exact forth
    · rw [(splitTag_links same (old_ne_new b old)).2]
      by_cases after : b = (tag cur).next
      · rw [if_pos after]
        refine Or.inr ⟨Finset.mem_insert_self _ _, ?_⟩
        rw [splitTag_new positive, after]
      · rw [if_neg after]
        rcases tiling.prev_cases b old with none | ⟨prevMem, forth⟩
        · exact Or.inl none
        · have prevNe : (tag b).prev ≠ cur := by
            intro isCur
            rw [isCur] at forth
            exact after forth.symm
          refine Or.inr ⟨Finset.mem_insert_of_mem prevMem, ?_⟩
          rw [(splitTag_links prevNe (old_ne_new _ prevMem)).1]
          exact forth

theorem split_apart (tiling : Tiling header grain tag blocks regions) (positive : 0 < header)
    (member : cur ∈ blocks) (room : size + header ≤ (tag cur).size) {c : Nat}
    (inside : b ∈ insert (cur + header + size) blocks)
    (inside' : c ∈ insert (cur + header + size) blocks) (less : b < c) :
    b + header + (splitTag header tag cur size b).size ≤ c := by
  have fresh := tiling.split_fresh positive member room
  rcases Finset.mem_insert.mp inside with rfl | old
  · rcases Finset.mem_insert.mp inside' with rfl | old'
    · omega
    · have apart := tiling.apart cur member c old' (by omega)
      rw [splitTag_new positive]
      dsimp only
      omega
  · by_cases same : b = cur
    · subst same
      rw [splitTag_self]
      rcases Finset.mem_insert.mp inside' with rfl | old'
      · exact Nat.le_refl _
      · have apart := tiling.apart b old c old' less
        dsimp only
        omega
    · rw [(splitTag_other same (fun isNew => fresh (isNew ▸ old))).1]
      rcases Finset.mem_insert.mp inside' with rfl | old'
      · by_cases before : b < cur
        · have apart := tiling.apart b old cur member before
          omega
        · have apart := tiling.apart cur member b old (by omega)
          omega
      · exact tiling.apart b old c old' less

theorem split (tiling : Tiling header grain tag blocks regions) (positive : 0 < header)
    (headerGrain : grain ∣ header) (member : cur ∈ blocks) (sizeGrain : grain ∣ size)
    (room : size + header ≤ (tag cur).size) :
    Tiling header grain (splitTag header tag cur size) (insert (cur + header + size) blocks)
      regions where
  nonzero := by
    intro b inside
    rcases Finset.mem_insert.mp inside with rfl | old
    · omega
    · exact tiling.nonzero b old
  grain_dvd := by
    intro b inside
    rcases Finset.mem_insert.mp inside with rfl | old
    · rw [splitTag_new positive]
      exact Nat.dvd_sub (Nat.dvd_sub (tiling.grain_dvd cur member) sizeGrain) headerGrain
    · by_cases same : b = cur
      · rw [same, splitTag_self]
        exact sizeGrain
      · have fresh := tiling.split_fresh positive member room
        rw [(splitTag_other same (fun isNew => fresh (isNew ▸ old))).1]
        exact tiling.grain_dvd b old
  region := fun _ inside => tiling.split_region positive member room inside
  next_cases := fun _ inside => tiling.split_next positive member room inside
  prev_cases := fun _ inside => tiling.split_prev positive member room inside
  apart := fun _ inside _ inside' less =>
    tiling.split_apart positive member room inside inside' less
  starts := fun r rMem =>
    ⟨(tiling.starts r rMem).1, Finset.mem_insert_of_mem (tiling.starts r rMem).2⟩
  regions_apart := tiling.regions_apart

end Split

/-! ### Merging two neighbours -/

section Absorb

variable {left right b : Nat}

theorem absorb_region (tiling : Tiling header grain tag blocks regions) (positive : 0 < header)
    (leftMem : left ∈ blocks) (rightMem : right ∈ blocks) (adjacent : (tag left).next = right)
    (old : b ∈ blocks) :
    ∃ r ∈ regions, r.start ≤ b ∧ b + header + (absorbTag header tag left right b).size ≤ r.stop ∧
      ((absorbTag header tag left right b).prev = 0 ↔ b = r.start) ∧
      ((absorbTag header tag left right b).next = 0 ↔
        b + header + (absorbTag header tag left right b).size = r.stop) := by
  have rightEq := (tiling.at_next leftMem rightMem adjacent).1
  by_cases same : b = left
  · subst same
    rcases tiling.region b leftMem with ⟨r, rMem, low, high, first, last⟩
    rcases tiling.region right rightMem with ⟨t, tMem, low', high', _, last'⟩
    have notLast : ¬ b + header + (tag b).size = r.stop := fun ended =>
      tiling.nonzero right rightMem (adjacent.symm.trans (last.mpr ended))
    have sameRegion : t = r :=
      tiling.region_unique tMem rMem ⟨low', by omega⟩ ⟨by omega, by omega⟩
    subst sameRegion
    have leftEnd : b + header + ((tag b).size + (header + (tag right).size)) =
        right + header + (tag right).size := by omega
    rw [absorbTag_self]
    dsimp only
    rw [leftEnd]
    exact ⟨t, tMem, low, high', first, last'⟩
  · rcases tiling.region b old with ⟨r, rMem, low, high, first, last⟩
    rw [(absorbTag_other same).1, (absorbTag_links same).1, (absorbTag_links same).2]
    refine ⟨r, rMem, low, high, ?_, last⟩
    rw [← first]
    by_cases after : b = (tag right).next
    · rw [if_pos after, (tiling.at_next rightMem old after.symm).2]
      exact iff_of_false (tiling.nonzero left leftMem) (tiling.nonzero right rightMem)
    · rw [if_neg after]

theorem absorb_next (tiling : Tiling header grain tag blocks regions) (positive : 0 < header)
    (leftMem : left ∈ blocks) (rightMem : right ∈ blocks) (adjacent : (tag left).next = right)
    (inside : b ∈ blocks.erase right) :
    (absorbTag header tag left right b).next = 0 ∨
      (absorbTag header tag left right b).next ∈ blocks.erase right ∧
      (absorbTag header tag left right b).next =
        b + header + (absorbTag header tag left right b).size ∧
      (absorbTag header tag left right (absorbTag header tag left right b).next).prev = b := by
  have rightEq := (tiling.at_next leftMem rightMem adjacent).1
  rcases Finset.mem_erase.mp inside with ⟨notRight, old⟩
  by_cases same : b = left
  · subst same
    rw [absorbTag_self]
    dsimp only
    rcases tiling.next_cases right rightMem with none | ⟨nextMem, place, _⟩
    · exact Or.inl none
    · refine Or.inr ⟨Finset.mem_erase.mpr ⟨by omega, nextMem⟩, by omega, ?_⟩
      rw [(absorbTag_links (by omega)).2, if_pos rfl]
  · rw [(absorbTag_other same).1, (absorbTag_links same).1]
    rcases tiling.next_cases b old with none | ⟨nextMem, place, back⟩
    · exact Or.inl none
    · have nextNe : (tag b).next ≠ right := by
        intro isRight
        exact same (tiling.eq_of_next old leftMem rightMem isRight adjacent)
      refine Or.inr ⟨Finset.mem_erase.mpr ⟨nextNe, nextMem⟩, place, ?_⟩
      by_cases isLeft : (tag b).next = left
      · rw [isLeft, absorbTag_self]
        rw [isLeft] at back
        exact back
      · rw [(absorbTag_links isLeft).2, if_neg, back]
        intro both
        exact notRight (tiling.eq_of_next old rightMem nextMem rfl both.symm)

theorem absorb_prev (tiling : Tiling header grain tag blocks regions) (positive : 0 < header)
    (leftMem : left ∈ blocks) (rightMem : right ∈ blocks) (adjacent : (tag left).next = right)
    (inside : b ∈ blocks.erase right) :
    (absorbTag header tag left right b).prev = 0 ∨
      (absorbTag header tag left right b).prev ∈ blocks.erase right ∧
      (absorbTag header tag left right (absorbTag header tag left right b).prev).next = b := by
  have rightEq := (tiling.at_next leftMem rightMem adjacent).1
  rcases Finset.mem_erase.mp inside with ⟨notRight, old⟩
  by_cases same : b = left
  · subst same
    rw [absorbTag_self]
    dsimp only
    rcases tiling.prev_cases b old with none | ⟨prevMem, forth⟩
    · exact Or.inl none
    · have prevNe : (tag b).prev ≠ right := by
        intro isRight
        rw [isRight] at forth
        have place := (tiling.at_next rightMem old forth).1
        omega
      refine Or.inr ⟨Finset.mem_erase.mpr ⟨prevNe, prevMem⟩, ?_⟩
      rw [(absorbTag_links (tiling.prev_ne positive old)).1]
      exact forth
  · rw [(absorbTag_links same).2]
    by_cases after : b = (tag right).next
    · rw [if_pos after]
      refine Or.inr ⟨Finset.mem_erase.mpr ⟨by omega, leftMem⟩, ?_⟩
      rw [absorbTag_self, after]
    · rw [if_neg after]
      rcases tiling.prev_cases b old with none | ⟨prevMem, forth⟩
      · exact Or.inl none
      · have prevNe : (tag b).prev ≠ left := by
          intro isLeft
          rw [isLeft, adjacent] at forth
          exact notRight forth.symm
        have prevNe' : (tag b).prev ≠ right := by
          intro isRight
          rw [isRight] at forth
          exact after forth.symm
        refine Or.inr ⟨Finset.mem_erase.mpr ⟨prevNe', prevMem⟩, ?_⟩
        rw [(absorbTag_links prevNe).1]
        exact forth

/-- The start of a region has no predecessor, but `right` has. -/
theorem start_ne_right (tiling : Tiling header grain tag blocks regions) (positive : 0 < header)
    (leftMem : left ∈ blocks) (rightMem : right ∈ blocks) (adjacent : (tag left).next = right)
    {r : Region} (rMem : r ∈ regions) : r.start ≠ right := by
  intro isRight
  have nonempty := (tiling.starts r rMem).1
  have rightBack := (tiling.at_next leftMem rightMem adjacent).2
  rcases tiling.region right rightMem with ⟨t, tMem, low, high, first, _⟩
  have sameRegion : t = r :=
    tiling.region_unique tMem rMem ⟨low, by omega⟩ ⟨by omega, by omega⟩
  rw [sameRegion, isRight] at first
  exact tiling.nonzero left leftMem (rightBack.symm.trans (first.mpr rfl))

theorem absorb (tiling : Tiling header grain tag blocks regions) (positive : 0 < header)
    (headerGrain : grain ∣ header) (leftMem : left ∈ blocks) (rightMem : right ∈ blocks)
    (adjacent : (tag left).next = right) :
    Tiling header grain (absorbTag header tag left right) (blocks.erase right) regions where
  nonzero := fun b inside => tiling.nonzero b (Finset.mem_of_mem_erase inside)
  grain_dvd := by
    intro b inside
    by_cases same : b = left
    · rw [same, absorbTag_self]
      exact Nat.dvd_add (tiling.grain_dvd left leftMem)
        (Nat.dvd_add headerGrain (tiling.grain_dvd right rightMem))
    · rw [(absorbTag_other same).1]
      exact tiling.grain_dvd b (Finset.mem_of_mem_erase inside)
  region := fun _ inside =>
    tiling.absorb_region positive leftMem rightMem adjacent (Finset.mem_of_mem_erase inside)
  next_cases := fun _ inside => tiling.absorb_next positive leftMem rightMem adjacent inside
  prev_cases := fun _ inside => tiling.absorb_prev positive leftMem rightMem adjacent inside
  apart := by
    intro b inside c inside' less
    have old := Finset.mem_of_mem_erase inside
    rcases Finset.mem_erase.mp inside' with ⟨notRight, old'⟩
    have apart := tiling.apart b old c old' less
    by_cases same : b = left
    · subst same
      have rightEq := (tiling.at_next old rightMem adjacent).1
      have apart' := tiling.apart right rightMem c old' (by omega)
      rw [absorbTag_self]
      dsimp only
      omega
    · rw [(absorbTag_other same).1]
      exact apart
  starts := fun r rMem =>
    ⟨(tiling.starts r rMem).1, Finset.mem_erase.mpr
      ⟨tiling.start_ne_right positive leftMem rightMem adjacent rMem, (tiling.starts r rMem).2⟩⟩
  regions_apart := tiling.regions_apart

end Absorb

/-! ### Adding a region -/

theorem extend (tiling : Tiling header grain tag blocks regions) (positive : 0 < header)
    (headerGrain : grain ∣ header) {r : Region} (start : r.start ≠ 0)
    (lengthGrain : grain ∣ r.stop - r.start) (room : r.start + header ≤ r.stop)
    (apart : ∀ t ∈ regions, r.stop ≤ t.start ∨ t.stop ≤ r.start)
    (newTag : tag' r.start = wholeTag header r) (oldTag : ∀ b ∈ blocks, tag' b = tag b) :
    Tiling header grain tag' (insert r.start blocks) (insert r regions) := by
  have newEnd : r.start + header + (r.stop - r.start - header) = r.stop := by omega
  have old : Tiling header grain tag' blocks regions :=
    tiling.congr (fun b inside => by rw [oldTag b inside]) (fun b inside => by rw [oldTag b inside])
      (fun b inside => by rw [oldTag b inside])
  have outside : ∀ b ∈ blocks, b + header + (tag' b).size ≤ r.start ∨ r.stop ≤ b := by
    intro b inside
    rcases old.region b inside with ⟨t, tMem, low, high, _, _⟩
    rcases apart t tMem with before | after <;> omega
  constructor
  case nonzero =>
    intro b inside
    rcases Finset.mem_insert.mp inside with rfl | member
    · exact start
    · exact old.nonzero b member
  case grain_dvd =>
    intro b inside
    rcases Finset.mem_insert.mp inside with rfl | member
    · rw [newTag]
      exact Nat.dvd_sub lengthGrain headerGrain
    · exact old.grain_dvd b member
  case region =>
    intro b inside
    rcases Finset.mem_insert.mp inside with rfl | member
    · refine ⟨r, Finset.mem_insert_self _ _, Nat.le_refl _, ?_, ?_, ?_⟩
      · rw [newTag]
        exact Nat.le_of_eq newEnd
      · rw [newTag]
        exact iff_of_true rfl rfl
      · rw [newTag]
        exact iff_of_true rfl newEnd
    · rcases old.region b member with ⟨t, tMem, rest⟩
      exact ⟨t, Finset.mem_insert_of_mem tMem, rest⟩
  case next_cases =>
    intro b inside
    rcases Finset.mem_insert.mp inside with rfl | member
    · rw [newTag]
      exact Or.inl rfl
    · rcases old.next_cases b member with none | ⟨nextMem, rest⟩
      · exact Or.inl none
      · exact Or.inr ⟨Finset.mem_insert_of_mem nextMem, rest⟩
  case prev_cases =>
    intro b inside
    rcases Finset.mem_insert.mp inside with rfl | member
    · rw [newTag]
      exact Or.inl rfl
    · rcases old.prev_cases b member with none | ⟨prevMem, rest⟩
      · exact Or.inl none
      · exact Or.inr ⟨Finset.mem_insert_of_mem prevMem, rest⟩
  case apart =>
    intro b inside c inside' less
    rcases Finset.mem_insert.mp inside with rfl | member
    · rw [newTag]
      dsimp only [wholeTag]
      rcases Finset.mem_insert.mp inside' with rfl | member'
      · omega
      · rcases outside c member' with before | after <;> omega
    · rcases Finset.mem_insert.mp inside' with rfl | member'
      · rcases outside b member with before | after <;> omega
      · exact old.apart b member c member' less
  case starts =>
    intro t inside
    rcases Finset.mem_insert.mp inside with rfl | member
    · exact ⟨by omega, Finset.mem_insert_self _ _⟩
    · exact ⟨(old.starts t member).1, Finset.mem_insert_of_mem (old.starts t member).2⟩
  case regions_apart =>
    intro t inside u inside' different
    rcases Finset.mem_insert.mp inside with rfl | member
    · rcases Finset.mem_insert.mp inside' with rfl | member'
      · exact absurd rfl different
      · exact apart u member'
    · rcases Finset.mem_insert.mp inside' with rfl | member'
      · exact (apart t member).symm
      · exact old.regions_apart t member u member' different

end Tiling

/-! ## Chains -/

/-- The blocks of `chain` lie one behind the other from `start` to `stop`. -/
def Adjacent (header : Nat) (tag : Nat → Tag) : Nat → Nat → List Nat → Prop
  | start, stop, [] => start = stop
  | start, stop, b :: rest => b = start ∧ Adjacent header tag (b + header + (tag b).size) stop rest

namespace Tiling

variable {header grain : Nat} {tag : Nat → Tag} {blocks : Finset Nat} {regions : Finset Region}

/-- From a block on, the blocks of its region form a chain up to the region's end. -/
theorem chain_from (tiling : Tiling header grain tag blocks regions) (positive : 0 < header)
    {r : Region} (rMem : r ∈ regions) {b : Nat} (member : b ∈ blocks) (low : r.start ≤ b)
    (high : b < r.stop) :
    ∃ chain, Linked (fun c => (tag c).next) (fun c => (tag c).prev) (tag b).prev b chain ∧
      Adjacent header tag b r.stop chain ∧
      ∀ c, c ∈ chain ↔ c ∈ blocks ∧ b ≤ c ∧ c < r.stop := by
  induction distance : r.stop - b using Nat.strong_induction_on generalizing b with
  | _ distance' inductionHypothesis =>
  subst distance
  rcases tiling.region b member with ⟨t, tMem, low', high', _, last⟩
  have sameRegion : t = r := tiling.region_unique tMem rMem ⟨low', by omega⟩ ⟨low, high⟩
  subst sameRegion
  have nonzero := tiling.nonzero b member
  have behind : ∀ c ∈ blocks, b < c → b + header + (tag b).size ≤ c :=
    fun c inside less => tiling.apart b member c inside less
  rcases tiling.next_cases b member with ended | ⟨nextMem, place, back⟩
  · have stop : b + header + (tag b).size = t.stop := last.mp ended
    refine ⟨[b], ⟨rfl, nonzero, rfl, ended⟩, ⟨rfl, stop⟩, ?_⟩
    intro c
    rw [List.mem_singleton]
    constructor
    · rintro rfl
      exact ⟨member, Nat.le_refl _, high⟩
    · rintro ⟨inside, le, less⟩
      by_contra different
      have := behind c inside (by omega)
      omega
  · have notLast : ¬ b + header + (tag b).size = t.stop :=
      fun stop => tiling.nonzero _ nextMem (last.mpr stop)
    rcases inductionHypothesis (t.stop - (tag b).next)
      (by omega) nextMem (by omega) (by omega) rfl with
      ⟨chain, linked, adjacent, members⟩
    rw [back] at linked
    rw [place] at adjacent
    refine ⟨b :: chain, ⟨rfl, nonzero, rfl, linked⟩, ⟨rfl, adjacent⟩, ?_⟩
    intro c
    rw [List.mem_cons, members c]
    constructor
    · rintro (rfl | ⟨inside, le, less⟩)
      · exact ⟨member, Nat.le_refl _, high⟩
      · exact ⟨inside, by omega, less⟩
    · rintro ⟨inside, le, less⟩
      by_cases same : c = b
      · exact Or.inl same
      · have := behind c inside (by omega)
        exact Or.inr ⟨inside, by omega, less⟩

/-- Every region is tiled exactly by one linked chain of blocks. -/
theorem chain (tiling : Tiling header grain tag blocks regions) (positive : 0 < header)
    {r : Region} (rMem : r ∈ regions) :
    ∃ chain, Linked (fun c => (tag c).next) (fun c => (tag c).prev) 0 r.start chain ∧
      Adjacent header tag r.start r.stop chain ∧
      ∀ c, c ∈ chain ↔ c ∈ blocks ∧ r.start ≤ c ∧ c < r.stop := by
  rcases tiling.starts r rMem with ⟨nonempty, startMem⟩
  rcases tiling.region r.start startMem with ⟨t, tMem, low, high, first, _⟩
  have sameRegion : t = r :=
    tiling.region_unique tMem rMem ⟨low, by omega⟩ ⟨Nat.le_refl _, nonempty⟩
  subst sameRegion
  have noPrev : (tag t.start).prev = 0 := first.mpr rfl
  have found := tiling.chain_from positive rMem startMem (Nat.le_refl _) nonempty
  rw [noPrev] at found
  exact found

/-- Blocks keep the alignment of the regions they tile. -/
theorem aligned (tiling : Tiling header grain tag blocks regions) (positive : 0 < header)
    (header_dvd : grain ∣ header) (start_dvd : ∀ r ∈ regions, grain ∣ r.start) :
    ∀ b ∈ blocks, grain ∣ b := by
  intro b
  induction b using Nat.strong_induction_on with
  | _ b inductionHypothesis =>
  intro member
  rcases tiling.region b member with ⟨r, rMem, _, _, first, _⟩
  rcases tiling.prev_cases b member with none | ⟨before, toNext⟩
  · rw [first.mp none]
    exact start_dvd r rMem
  · have place := (tiling.at_next before member toNext).1
    have earlier := inductionHypothesis (tag b).prev (by omega) before
    rw [place]
    exact Nat.dvd_add (Nat.dvd_add earlier header_dvd) (tiling.grain_dvd _ before)

end Tiling

/-! ## Accounting -/

/-- The bytes that the blocks take with their headers. -/
def extentSum (header : Nat) (tag : Nat → Tag) (blocks : Finset Nat) : Nat :=
  ∑ b ∈ blocks, (header + (tag b).size)

def usedBlocks (tag : Nat → Tag) (blocks : Finset Nat) : Finset Nat :=
  blocks.filter fun b => (tag b).used ≠ 0

/-- The payload bytes of the used blocks. -/
def usedSum (tag : Nat → Tag) (blocks : Finset Nat) : Nat :=
  ∑ b ∈ usedBlocks tag blocks, (tag b).size

/-- The payload bytes of the free blocks. -/
def freeSum (tag : Nat → Tag) (blocks : Finset Nat) : Nat :=
  ∑ b ∈ blocks.filter (fun b => ¬ (tag b).used ≠ 0), (tag b).size

def regionSum (regions : Finset Region) : Nat := ∑ r ∈ regions, (r.stop - r.start)

@[simp] theorem mem_usedBlocks {tag : Nat → Tag} {blocks : Finset Nat} {b : Nat} :
    b ∈ usedBlocks tag blocks ↔ b ∈ blocks ∧ (tag b).used ≠ 0 :=
  Finset.mem_filter

theorem usedSum_add_freeSum (header : Nat) (tag : Nat → Tag) (blocks : Finset Nat) :
    usedSum tag blocks + freeSum tag blocks + header * blocks.card =
      extentSum header tag blocks := by
  unfold usedSum freeSum usedBlocks extentSum
  rw [Finset.sum_filter_add_sum_filter_not, Finset.sum_add_distrib,
    Finset.sum_const_nat (fun _ _ => rfl), Nat.add_comm, Nat.mul_comm]

/-- The used payload depends on the used blocks only. -/
theorem usedSum_congr {tag tag' : Nat → Tag} {blocks blocks' : Finset Nat}
    (same : usedBlocks tag' blocks' = usedBlocks tag blocks)
    (size : ∀ b ∈ usedBlocks tag blocks, (tag' b).size = (tag b).size) :
    usedSum tag' blocks' = usedSum tag blocks := by
  unfold usedSum
  rw [same]
  exact Finset.sum_congr rfl size

theorem usedBlocks_congr {tag tag' : Nat → Tag} {blocks : Finset Nat}
    (same : ∀ b ∈ blocks, tag' b = tag b) : usedBlocks tag' blocks = usedBlocks tag blocks :=
  Finset.filter_congr fun b member => by rw [same b member]

theorem extentSum_congr (header : Nat) {tag tag' : Nat → Tag} {blocks : Finset Nat}
    (same : ∀ b ∈ blocks, tag' b = tag b) :
    extentSum header tag' blocks = extentSum header tag blocks :=
  Finset.sum_congr rfl fun b member => by rw [same b member]

/-- A sum over the blocks when only one block changes its weight. -/
theorem sum_change {blocks : Finset Nat} {weight weight' : Nat → Nat} {b : Nat}
    (member : b ∈ blocks) (others : ∀ c ∈ blocks, c ≠ b → weight' c = weight c) :
    ∑ c ∈ blocks, weight' c + weight b = ∑ c ∈ blocks, weight c + weight' b := by
  rw [← Finset.add_sum_erase blocks weight member, ← Finset.add_sum_erase blocks weight' member]
  have same : ∑ c ∈ blocks.erase b, weight' c = ∑ c ∈ blocks.erase b, weight c :=
    Finset.sum_congr rfl fun c inside =>
      others c (Finset.mem_of_mem_erase inside) (Finset.ne_of_mem_erase inside)
  omega

section Edits

variable {header : Nat} {tag : Nat → Tag} {blocks : Finset Nat}

/-- The split leaves the tags of used blocks alone, up to the link to the new block. -/
theorem splitTag_size {cur size b : Nat} (free : (tag cur).used = 0)
    (fresh : cur + header + size ∉ blocks) (member : b ∈ usedBlocks tag blocks) :
    (splitTag header tag cur size b).size = (tag b).size := by
  rcases mem_usedBlocks.mp member with ⟨inside, used⟩
  refine (splitTag_other ?_ ?_).1
  · rintro rfl
    exact used free
  · rintro rfl
    exact fresh inside

theorem extentSum_split (positive : 0 < header) {cur size : Nat} (member : cur ∈ blocks)
    (fresh : cur + header + size ∉ blocks) (room : size + header ≤ (tag cur).size) :
    extentSum header (splitTag header tag cur size) (insert (cur + header + size) blocks) =
      extentSum header tag blocks := by
  unfold extentSum
  rw [Finset.sum_insert fresh]
  have change := @sum_change blocks (fun b => header + (tag b).size)
      (fun b => header + (splitTag header tag cur size b).size) cur member
    (fun c inside different => by
      rw [(splitTag_other different (fun same => fresh (same ▸ inside))).1])
  simp only [splitTag_self] at change
  rw [splitTag_new positive]
  dsimp only
  omega

theorem usedBlocks_split (positive : 0 < header) {cur size : Nat} (free : (tag cur).used = 0)
    (fresh : cur + header + size ∉ blocks) :
    usedBlocks (splitTag header tag cur size) (insert (cur + header + size) blocks) =
      usedBlocks tag blocks := by
  ext b
  rw [mem_usedBlocks, mem_usedBlocks, Finset.mem_insert]
  by_cases isNew : b = cur + header + size
  · rw [isNew, splitTag_new positive]
    exact iff_of_false (fun holds => holds.2 rfl) (fun holds => fresh holds.1)
  · by_cases isCur : b = cur
    · rw [isCur, splitTag_self]
      exact iff_of_false (fun holds => holds.2 free) (fun holds => holds.2 free)
    · rw [(splitTag_other isCur isNew).2]
      exact and_congr_left' (or_iff_right isNew)

theorem extentSum_mark (cur : Nat) (used : UInt8) :
    extentSum header (markTag tag cur used) blocks = extentSum header tag blocks :=
  Finset.sum_congr rfl fun b _ => by rw [(markTag_size tag cur b used).1]

/-- A block handed out joins the used ones. -/
theorem usedBlocks_acquire {cur : Nat} {used : UInt8} (member : cur ∈ blocks) (nonzero : used ≠ 0) :
    usedBlocks (markTag tag cur used) blocks = insert cur (usedBlocks tag blocks) := by
  ext b
  rw [mem_usedBlocks, Finset.mem_insert, mem_usedBlocks, markTag_used]
  by_cases same : b = cur
  · rw [if_pos same]
    exact iff_of_true ⟨same ▸ member, nonzero⟩ (Or.inl same)
  · rw [if_neg same]
    exact (or_iff_right same).symm

/-- A block given back leaves the used ones. -/
theorem usedBlocks_release (cur : Nat) :
    usedBlocks (markTag tag cur 0) blocks = (usedBlocks tag blocks).erase cur := by
  ext b
  rw [mem_usedBlocks, Finset.mem_erase, mem_usedBlocks, markTag_used]
  by_cases same : b = cur
  · rw [if_pos same]
    exact iff_of_false (fun holds => holds.2 rfl) (fun holds => holds.1 same)
  · rw [if_neg same]
    exact (and_iff_right same).symm

theorem usedSum_acquire {cur : Nat} {used : UInt8} (member : cur ∈ blocks)
    (free : (tag cur).used = 0) (nonzero : used ≠ 0) :
    usedSum (markTag tag cur used) blocks = usedSum tag blocks + (tag cur).size := by
  have fresh : cur ∉ usedBlocks tag blocks := fun inside => (mem_usedBlocks.mp inside).2 free
  unfold usedSum
  rw [usedBlocks_acquire member nonzero, Finset.sum_insert fresh, (markTag_size tag cur cur used).1,
    Nat.add_comm]
  congr 1
  exact Finset.sum_congr rfl fun b _ => (markTag_size tag cur b used).1

theorem usedSum_release {cur : Nat} (member : cur ∈ usedBlocks tag blocks) :
    usedSum (markTag tag cur 0) blocks + (tag cur).size = usedSum tag blocks := by
  unfold usedSum
  rw [usedBlocks_release, ← Finset.sum_erase_add _ _ member]
  congr 1
  exact Finset.sum_congr rfl fun b _ => (markTag_size tag cur b 0).1

theorem absorbTag_size {left right b : Nat} (leftFree : (tag left).used = 0)
    (member : b ∈ usedBlocks tag blocks) :
    (absorbTag header tag left right b).size = (tag b).size := by
  refine (absorbTag_other ?_).1
  rintro rfl
  exact (mem_usedBlocks.mp member).2 leftFree

theorem extentSum_absorb {left right : Nat} (leftMem : left ∈ blocks) (rightMem : right ∈ blocks)
    (different : left ≠ right) :
    extentSum header (absorbTag header tag left right) (blocks.erase right) =
      extentSum header tag blocks := by
  unfold extentSum
  have leftMem' : left ∈ blocks.erase right := Finset.mem_erase.mpr ⟨different, leftMem⟩
  have change := @sum_change (blocks.erase right) (fun b => header + (tag b).size)
      (fun b => header + (absorbTag header tag left right b).size) left leftMem'
    (fun c _ other => by rw [(absorbTag_other other).1])
  simp only [absorbTag_self] at change
  rw [← Finset.add_sum_erase blocks (fun b => header + (tag b).size) rightMem]
  omega

theorem usedBlocks_absorb {left right : Nat} (leftFree : (tag left).used = 0)
    (rightFree : (tag right).used = 0) :
    usedBlocks (absorbTag header tag left right) (blocks.erase right) = usedBlocks tag blocks := by
  ext b
  rw [mem_usedBlocks, mem_usedBlocks, Finset.mem_erase]
  by_cases isLeft : b = left
  · rw [isLeft, absorbTag_self]
    exact iff_of_false (fun holds => holds.2 leftFree) (fun holds => holds.2 leftFree)
  · rw [(absorbTag_other isLeft).2]
    by_cases isRight : b = right
    · rw [isRight]
      exact iff_of_false (fun holds => holds.2 rightFree) (fun holds => holds.2 rightFree)
    · exact and_congr_left' (and_iff_right isRight)

end Edits

end Machine
end AuraKernel
