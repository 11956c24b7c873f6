import AuraKernel.Paging.Calls

namespace AuraKernel
namespace Paging

open Machine
open Physical

/-!
# Missing tables

`vmm_map_page` creates the tables that the walk of its page lacks, each in a
frame of its own.  How many there are can be read off the tables beforehand, and
the calls of `pmm_alloc_frame` succeed exactly if that many frames are free.
-/

/-- How many of the tables along a path below a table do not exist. -/
def missingTables (mem : Mem) : Nat → List Nat → Nat
  | _, [] => 0
  | table, index :: rest =>
      if IsPresent (entry mem table index) then
        missingTables mem (entry mem table index &&& pteAddrMask) rest
      else rest.length + 1

section Paths

variable {s : PhysState} {root table : Nat} {reserved : Set Nat} {path rest : List Nat}

theorem missingTables_le (mem : Mem) (table : Nat) (path : List Nat) :
    missingTables mem table path ≤ path.length := by
  induction path generalizing table with
  | nil => exact Nat.le_refl 0
  | cons index rest inductionHypothesis =>
      rw [missingTables]
      split
      · exact Nat.le_succ_of_le (inductionHypothesis _)
      · exact Nat.le_refl _

/-- Below an empty table, all tables are missing. -/
theorem missingTables_of_cleared {mem : Mem} (zero : ∀ j, j < 512 → entry mem table j = 0)
    (bounds : ∀ index ∈ path, index < 512) : missingTables mem table path = path.length := by
  cases path with
  | nil => rfl
  | cons index rest =>
      rw [missingTables, zero index (bounds index List.mem_cons_self)]
      exact if_neg (by decide)

/-- The calls of `pmm_alloc_frame` along a path succeed exactly if the manager has a free
frame for every missing table. -/
theorem TreeInv.pathServed_iff (inv : TreeInv s root reserved)
    (walk : WalkAt s root path rest table) :
    PathServed table rest s ↔
      missingTables s.mem table rest + s.pmm.usedFrames ≤ s.pmm.totalFrames := by
  induction rest generalizing path table s with
  | nil =>
      rw [missingTables, Nat.zero_add]
      exact iff_of_true trivial (usedFrames_le inv.space.pmm)
  | cons index rest inductionHypothesis =>
      rw [PathServed, missingTables]
      by_cases present : IsPresent (entry s.mem table index)
      · have served : EntryServed table index s := fun absent => absurd present absent
        have first := inv.ensureTable_walk walk served
        have below := inductionHypothesis first.effect.inv (walk.next first)
        rw [ensureTable_present present] at below ⊢
        rw [if_pos present, and_iff_right served]
        exact below
      · rw [if_neg present]
        rcases inv.ensureTable_cases (inv.tables path table walk.found) walk.bound present with
          ⟨failed, used⟩ | ⟨frame, creates⟩
        · have full := (usedFrames_ge_iff inv.space.pmm).mpr used
          apply iff_of_false
          · exact fun served => absurd (congrArg Prod.fst failed) (served.1 present)
          · omega
        · have served : EntryServed table index s := by
            intro _
            rw [creates.allocated]
            exact Nat.mul_ne_zero creates.nonzero (by decide)
          have first := inv.ensureTable_walk walk served
          have below := inductionHypothesis first.effect.inv (walk.next first)
          rw [creates.address, missingTables_of_cleared creates.grafted.cleared
            (walk.next first).bounds, creates.counted, creates.grafted.total_eq] at below
          rw [and_iff_right served, creates.address, below]
          omega

end Paths

/-- The calls of `pmm_alloc_frame` in `vmm_map_page` succeed exactly if there is a free frame
for every table that is missing. -/
theorem TreeInv.mapServed_iff {s : PhysState} {pml4 virt : Nat} {reserved : Set Nat}
    (inv : TreeInv s pml4 reserved) (noLarge : NoLargeLeaf s.mem pml4 virt) :
    MapServed pml4 virt s ↔
      missingTables s.mem pml4 (pagePath virt) + s.pmm.usedFrames ≤ s.pmm.totalFrames :=
  Paging.mapServed_iff.trans (inv.pathServed_iff (WalkAt.start noLarge))

end Paging
end AuraKernel
