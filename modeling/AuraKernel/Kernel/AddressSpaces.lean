import AuraKernel.Kernel.Holders
import AuraKernel.Kernel.NoTwoOwners

namespace AuraKernel
namespace Kernel

open Machine
open Physical
open Paging (vmmMapPage vmmUnmapPage vmmVirtToPhys hwTranslate tableAt MapServed pageKey
  spaceFrames FramesOwned entry lookup)

/-!
# Address spaces among allocators

In every interleaving of the allocators, their callers and the virtual memory
manager, each frame in use has exactly one holder.  What one of them does is
therefore invisible to the others: an address space translates by its own calls
only, and no table lies in memory that somebody may write to.
-/

/-- The allocators and the address spaces keep their invariants, and the frames in use are
divided among them. -/
structure VirtualInv (s : VirtualSession) (total : Nat) (reserved : Set Nat) : Prop where
  session : SessionInv s.session total reserved
  partition : Partition s.phys reserved s.domain
  space : ∀ root pages, s.spaces root = some pages →
    Paging.SessionInv root reserved ⟨s.phys, pages⟩

section Invariant

variable {s : VirtualSession} {t : Session} {total root : Nat} {reserved : Set Nat}
  {pages : Nat → Option Nat}

theorem domain_of_space (isSpace : s.spaces root = some pages) :
    s.domain (.space root) = spaceFrames s.phys.mem root := by
  ext frame
  change (s.spaces root).isSome ∧ _ ↔ _
  rw [isSpace]
  exact and_iff_right rfl

theorem domain_of_none (isNone : s.spaces root = none) : s.domain (.space root) = ∅ := by
  ext frame
  change (s.spaces root).isSome ∧ _ ↔ _
  rw [isNone]
  exact iff_of_false (fun both => Bool.false_ne_true both.1) (Set.notMem_empty frame)

theorem create_spaces (s : VirtualSession) (frame : Nat) :
    (s.create frame).spaces (frame * pageSize) = some fun _ => none :=
  Function.update_self ..

theorem withSpace_spaces (s : VirtualSession) (phys : PhysState) (root : Nat)
    (pages : Nat → Option Nat) : (s.withSpace phys root pages).spaces root = some pages :=
  Function.update_self ..

/-- The kernel with another memory and frame manager. -/
def Session.withPhys (t : Session) (phys : PhysState) : Session :=
  { t with kernel := t.kernel.withPhys phys }

/-- The allocators do not notice a step in frames that are not theirs. -/
theorem SessionInv.other (inv : SessionInv t total reserved) {phys : PhysState} {own own' : Set Nat}
    (confined : Confined 0 t.kernel.phys phys own own') (space : FrameSpace phys 0 reserved)
    (apart : ∀ a, ∀ frame ∈ t.framesBy a, frame ∉ own) :
    SessionInv (t.withPhys phys) total reserved where
  pool := inv.pool_other confined space (apart .heap)
  slab := inv.slab_other confined space (apart .zones)
  custody := inv.custody.other confined space (apart .callers)
  heap_offset := inv.heap_offset
  slab_offset := inv.slab_offset
  slab_heap := inv.slab_heap
  frames_heap := inv.frames_heap
  frames_slab := inv.frames_slab

theorem SessionInv.drop (inv : SessionInv t total reserved) (frame : Nat) :
    SessionInv { t with frames := t.frames \ {frame} } total reserved where
  pool := inv.pool
  slab := inv.slab
  custody :=
    ⟨inv.custody.space, inv.custody.total_eq, fun other held => inv.custody.handed other held.1⟩
  heap_offset := inv.heap_offset
  slab_offset := inv.slab_offset
  slab_heap := inv.slab_heap
  frames_heap := fun other held => inv.frames_heap other held.1
  frames_slab := fun other held => inv.frames_slab other held.1

theorem SessionInv.framesBy_owned (inv : SessionInv t total reserved) (a : Allocator) :
    ∀ frame ∈ t.framesBy a,
      frame < t.kernel.phys.pmm.totalFrames ∧ t.kernel.phys.Used frame ∧ frame ∉ reserved := by
  intro frame member
  cases a with
  | heap => exact inv.heapFrames_owned member
  | zones => exact inv.zoneFrames_owned member
  | callers => exact inv.frames_owned member

namespace VirtualInv

theorem frames_space (inv : VirtualInv s total reserved) : FrameSpace s.phys 0 reserved :=
  inv.session.space

theorem framesOwned (inv : VirtualInv s total reserved) (isSpace : s.spaces root = some pages) :
    FramesOwned s.phys root reserved := by
  intro frame member
  rw [← domain_of_space isSpace] at member
  have owned := inv.partition.owned (.space root) frame member
  exact ⟨owned.1, owned.2.2⟩

/-- An address space does not notice a step of another holder. -/
theorem space_other (inv : VirtualInv s total reserved) {phys : PhysState} {h : Holder}
    {own' : Set Nat} (confined : Confined 0 s.phys phys (s.domain h) own')
    (space : FrameSpace phys 0 reserved) (different : Holder.space root ≠ h)
    (isSpace : s.spaces root = some pages) :
    Paging.SessionInv root reserved ⟨phys, pages⟩ ∧
      spaceFrames phys.mem root = spaceFrames s.phys.mem root := by
  have paging := inv.space root pages isSpace
  have owned := inv.framesOwned isSpace
  have apart : ∀ frame ∈ spaceFrames s.phys.mem root, frame ∉ s.domain h := by
    intro frame member
    rw [← domain_of_space isSpace] at member
    exact inv.partition.apart _ h different frame member
  exact ⟨paging.other owned confined apart space,
    paging.tree.spaceFrames_other owned confined apart⟩

/-- A step of an allocator or of its callers. -/
theorem allocators (inv : VirtualInv s total reserved) (step : Session.Step s.session t) :
    VirtualInv ⟨t, s.spaces⟩ total reserved := by
  have session := inv.session.step step
  rcases inv.session.moves step with ⟨a, moves⟩
  have others : ∀ root pages, s.spaces root = some pages → _ := fun root pages isSpace =>
    @space_other s total root reserved pages inv t.kernel.phys (.allocator a) _ moves.confined
      session.space (by simp) isSpace
  have domain : VirtualSession.domain ⟨t, s.spaces⟩ =
      Function.update s.domain (.allocator a) (t.framesBy a) := by
    funext h
    cases h with
    | allocator b =>
        by_cases same : b = a
        · rw [same, Function.update_self]
          rfl
        · rw [Function.update_of_ne fun equal => same (Holder.allocator.inj equal)]
          exact moves.others b same
    | space root =>
        rw [Function.update_of_ne (by simp)]
        cases isSpace : s.spaces root with
        | none =>
            rw [domain_of_none isSpace]
            exact domain_of_none isSpace
        | some pages =>
            rw [domain_of_space isSpace, ← (others root pages isSpace).2]
            exact domain_of_space isSpace
  constructor
  case session => exact session
  case partition =>
    rw [domain]
    exact inv.partition.step inv.frames_space moves.confined moves.accounts
      (session.framesBy_owned a)
  case space => exact fun root pages isSpace => (others root pages isSpace).1

theorem create (inv : VirtualInv s total reserved) {frame : Nat}
    (width : s.phys.pmm.totalFrames * pageSize ≤ 2 ^ 52) (member : frame ∈ s.session.frames)
    (cleared : ∀ index, index < 512 → entry s.phys.mem (frame * pageSize) index = 0) :
    VirtualInv (s.create frame) total reserved := by
  rcases inv.session.frames_owned member with ⟨bound, used, notReserved⟩
  have isTable : Paging.IsTable s.phys (frame * pageSize) := by
    refine ⟨Nat.mul_mod_left _ _, ?_, ?_⟩
    · rw [Nat.mul_div_cancel frame (by decide)]
      exact fun _ => used
    · intro place inBitmap
      have notIn := fun low high =>
        notReserved (inv.frames_space.bitmap_reserved frame bound place inBitmap low high)
      rw [Nat.zero_add, Nat.zero_add, Nat.succ_mul] at notIn
      by_contra inside
      exact notIn (by omega) (by omega)
  have empty := Paging.empty_inv inv.frames_space width isTable cleared
  have frames : spaceFrames s.phys.mem (frame * pageSize) = {frame} := by
    ext other
    constructor
    · rintro ⟨path, found⟩
      exact Nat.eq_of_mul_eq_mul_right (by decide) (Paging.tableAt_of_empty cleared found).2
    · rintro rfl
      exact ⟨[], rfl⟩
  -- a table of another space would be a frame with two holders
  have isNew : s.spaces (frame * pageSize) = none := by
    cases isSpace : s.spaces (frame * pageSize) with
    | none => rfl
    | some pages =>
        have held : frame ∈ s.domain (.space (frame * pageSize)) := by
          rw [domain_of_space isSpace, frames]
          rfl
        exact absurd held
          (inv.partition.apart (.allocator .callers) _ (by simp) frame member)
  have domain : (s.create frame).domain = Function.update
      (Function.update s.domain (.allocator .callers) (s.domain (.allocator .callers) \ {frame}))
      (.space (frame * pageSize)) {frame} := by
    funext h
    cases h with
    | allocator a =>
        rw [Function.update_of_ne (by simp)]
        cases a with
        | heap =>
            rw [Function.update_of_ne (by simp)]
            rfl
        | zones =>
            rw [Function.update_of_ne (by simp)]
            rfl
        | callers =>
            rw [Function.update_self]
            rfl
    | space root =>
        by_cases same : root = frame * pageSize
        · subst same
          rw [Function.update_self, ← frames]
          exact domain_of_space (create_spaces s frame)
        · rw [Function.update_of_ne fun equal => same (Holder.space.inj equal),
            Function.update_of_ne (by simp)]
          have spaces : (s.create frame).spaces root = s.spaces root :=
            Function.update_of_ne same _ _
          change {other | ((s.create frame).spaces root).isSome ∧ _} = _
          rw [spaces]
          rfl
  constructor
  case session => exact inv.session.drop frame
  case partition =>
    rw [domain]
    exact inv.partition.handOver (by simp) (domain_of_none isNew) member
  case space =>
    intro root pages isSpace
    change Function.update s.spaces (frame * pageSize) (some fun _ => none) root = some pages
      at isSpace
    by_cases same : root = frame * pageSize
    · subst same
      rw [Function.update_self] at isSpace
      cases isSpace
      exact empty
    · rw [Function.update_of_ne same] at isSpace
      exact inv.space root pages isSpace

theorem withSpace (inv : VirtualInv s total reserved) {phys : PhysState}
    {pages' : Nat → Option Nat} (isSpace : s.spaces root = some pages)
    (extended : Paging.Extends s.phys phys root reserved)
    (paging : Paging.SessionInv root reserved ⟨phys, pages'⟩) :
    VirtualInv (s.withSpace phys root pages') total reserved := by
  have own := domain_of_space isSpace
  have confined := extended.confined
  have accounts := extended.accounts
  rw [← own] at confined accounts
  have space : FrameSpace phys 0 reserved := paging.tree.space
  have after := withSpace_spaces s phys root pages'
  have elsewhere : ∀ other, other ≠ root →
      (s.withSpace phys root pages').spaces other = s.spaces other :=
    fun other different => Function.update_of_ne different _ _
  have others : ∀ other pages, other ≠ root → s.spaces other = some pages → _ :=
    fun other pages different isOther => @space_other s total other reserved pages inv phys
      (.space root) _ confined space (fun same => different (Holder.space.inj same)) isOther
  have domain : (s.withSpace phys root pages').domain =
      Function.update s.domain (.space root) (spaceFrames phys.mem root) := by
    funext h
    cases h with
    | allocator a =>
        rw [Function.update_of_ne (by simp)]
        rfl
    | space other =>
        by_cases same : other = root
        · subst same
          rw [Function.update_self]
          exact domain_of_space after
        · rw [Function.update_of_ne fun equal => same (Holder.space.inj equal)]
          cases isOther : s.spaces other with
          | none =>
              rw [domain_of_none isOther]
              exact domain_of_none ((elsewhere other same).trans isOther)
          | some otherPages =>
              rw [domain_of_space isOther, ← (others other otherPages same isOther).2]
              exact domain_of_space ((elsewhere other same).trans isOther)
  constructor
  case session =>
    apply inv.session.other confined space
    exact fun a => inv.partition.apart (.allocator a) _ (by simp)
  case partition =>
    rw [domain]
    apply inv.partition.step inv.frames_space confined accounts
    intro frame member
    rcases extended.framesOwned (inv.space root pages isSpace).tree (inv.framesOwned isSpace)
      frame member with ⟨bound, notReserved⟩
    exact ⟨bound, paging.tree.frame_used member bound, notReserved⟩
  case space =>
    intro other otherPages isOther
    by_cases same : other = root
    · subst same
      rw [after] at isOther
      cases isOther
      exact paging
    · rw [elsewhere other same] at isOther
      exact (others other otherPages same isOther).1

theorem step {u : VirtualSession} (inv : VirtualInv s total reserved)
    (width : total * pageSize ≤ 2 ^ 52) (step : VirtualSession.Step s u) :
    VirtualInv u total reserved := by
  cases step with
  | allocators step => exact inv.allocators step
  | create frame member cleared =>
      have totalEq : s.phys.pmm.totalFrames = total := inv.session.custody.total_eq
      exact inv.create (totalEq.symm ▸ width) member cleared
  | @map root pages space virt phys flags served =>
      have paging := inv.space root pages space
      apply inv.withSpace space
      · exact Paging.Extends.map paging.tree (paging.noLargeLeaf virt) served phys flags
      · exact paging.map served phys flags
  | @unmap root pages space virt =>
      have paging := inv.space root pages space
      apply inv.withSpace space
      · exact Paging.Extends.unmap paging.tree (paging.noLargeLeaf virt)
      · exact paging.unmap virt

end VirtualInv

end Invariant

section Boot

variable {totalMemoryBytes kernelEnd : Nat}

/-- After boot only the reserved frames are in use. -/
theorem virtualInv_boot (phys : PhysState) (bound : totalMemoryBytes < 2 ^ 64)
    (image : 0 < kernelEnd) (fits : ImageFits (ramSize totalMemoryBytes) kernelEnd) :
    VirtualInv (VirtualSession.boot totalMemoryBytes kernelEnd phys)
      (ramSize totalMemoryBytes / pageSize)
      {frame | frame < reservedFrames (ramSize totalMemoryBytes) kernelEnd} := by
  have session := boot_inv phys bound image fits
  have nothing : ∀ h frame,
      frame ∉ (VirtualSession.boot totalMemoryBytes kernelEnd phys).domain h := by
    intro h frame
    cases h with
    | allocator a =>
        cases a with
        | heap => exact Set.notMem_empty frame
        | zones =>
            rintro ⟨_, impossible⟩
            exact impossible
        | callers => exact Set.notMem_empty frame
    | space root => exact fun both => Bool.false_ne_true both.1
  constructor
  case session => exact session
  case partition =>
    refine ⟨?_, ?_, ?_⟩
    · exact fun h frame member => absurd member (nothing h frame)
    · exact fun h _ _ frame member => absurd member (nothing h frame)
    · intro frame inMemory used
      rcases setupPmm_spec phys (ramSize_lt bound) kernelEnd with ⟨_, total, _, usedIff⟩
      have inMemory' : frame < ramSize totalMemoryBytes / pageSize := total ▸ inMemory
      exact Or.inl ((usedIff frame inMemory').mp used)
  case space => exact fun _ _ impossible => by cases impossible

theorem VirtualSession.Reachable.inv {s : VirtualSession} {phys : PhysState}
    (bound : totalMemoryBytes < 2 ^ 64) (image : 0 < kernelEnd)
    (fits : ImageFits (ramSize totalMemoryBytes) kernelEnd)
    (width : ramSize totalMemoryBytes ≤ 2 ^ 52)
    (reachable : VirtualSession.Reachable totalMemoryBytes kernelEnd phys s) :
    VirtualInv s (ramSize totalMemoryBytes / pageSize)
      {frame | frame < reservedFrames (ramSize totalMemoryBytes) kernelEnd} := by
  have narrow : ramSize totalMemoryBytes / pageSize * pageSize ≤ 2 ^ 52 :=
    Nat.le_trans (Nat.div_mul_le_self _ _) width
  induction reachable with
  | refl => exact virtualInv_boot phys bound image fits
  | tail _ step inductionHypothesis => exact inductionHypothesis.step narrow step

/-! ## Nothing is lost -/

/-- The frames in use are the reserved ones, the frames of the regions of a well-formed heap,
the pages of the zones, the frames in the hands of callers, and the tables of the address spaces;
none of them has two of these uses.  The free memory is all the rest. -/
structure NothingLost (s : VirtualSession) (totalFrames reservedFrames : Nat) : Prop where
  backed : ∃ layout pages nodes, Heap.WellFormed s.session.pool.heapSession layout ∧
    Slab.Integrity s.session.slab pages nodes ∧
      s.domain (.allocator .heap) = layout.frames 0 ∧
      ∀ frame, frame ∈ s.domain (.allocator .zones) ↔ ∃ i, frame ∈ pages i
  used_iff : ∀ frame, frame < totalFrames →
    (s.phys.Used frame ↔ frame < reservedFrames ∨ ∃ h, frame ∈ s.domain h)
  inMemory : ∀ h, ∀ frame ∈ s.domain h, reservedFrames ≤ frame ∧ frame < totalFrames
  once : ∀ h h', h ≠ h' → ∀ frame ∈ s.domain h, frame ∉ s.domain h'
  free_eq : pmmGetFreeMemory s.phys = pageSize * Set.ncard {frame | frame < totalFrames ∧
    reservedFrames ≤ frame ∧ ∀ h, frame ∉ s.domain h}

/-- After boot, in any order of calls of `kmalloc`, `kfree`, `krealloc`, the slab allocator, the
pool, the frame manager and the virtual memory manager, no frame gets lost: each one that is not
free is reserved or has exactly one holder.  Calls of `vmm_map_page` are served. -/
theorem reachable_nothingLost {s : VirtualSession} {phys : PhysState}
    (bound : totalMemoryBytes < 2 ^ 64) (image : 0 < kernelEnd)
    (fits : ImageFits (ramSize totalMemoryBytes) kernelEnd)
    (width : ramSize totalMemoryBytes ≤ 2 ^ 52)
    (reachable : VirtualSession.Reachable totalMemoryBytes kernelEnd phys s) :
    NothingLost s (ramSize totalMemoryBytes / pageSize)
      (reservedFrames (ramSize totalMemoryBytes) kernelEnd) := by
  have inv := reachable.inv bound image fits width
  have totalEq : s.phys.pmm.totalFrames = ramSize totalMemoryBytes / pageSize :=
    inv.session.custody.total_eq
  constructor
  case backed =>
    rcases inv.session.pool.heap with ⟨layout, heapInv⟩
    rcases inv.session.slab with ⟨slabLayout, slabInv⟩
    refine ⟨layout, slabLayout.pages, slabLayout.nodes, heapInv.wellFormed, slabInv.integrity, ?_,
      fun _ => slabInv.mem_allTaken⟩
    have offset : s.session.pool.heapSession.heap.physOffset = 0 := inv.session.heap_offset
    rw [← offset]
    exact heapInv.taken
  case used_iff =>
    intro frame inMemory
    exact inv.partition.used_iff inv.frames_space (totalEq.symm ▸ inMemory)
  case inMemory =>
    intro h frame member
    rcases inv.partition.owned h frame member with ⟨inMemory, _, notReserved⟩
    exact ⟨Nat.not_lt.mp notReserved, totalEq ▸ inMemory⟩
  case once => exact inv.partition.apart
  case free_eq =>
    have together := inv.partition.usedFrames_add inv.frames_space
    have small := inv.frames_space.space_lt
    simp only [Set.mem_ofPred_eq, Nat.not_lt] at together
    rw [← totalEq]
    unfold pmmGetFreeMemory
    unfold pageSize at *
    rw [sub64_of_le (by omega), wrap64_of_lt (by omega)]
    omega

/-! ## Nothing interferes -/

/-- The tables of each address space lie outside of everything that somebody may write to, and
outside of each other's; and the space translates as its own calls say. -/
structure Undisturbed (s : VirtualSession) : Prop where
  software : ∀ root pages, s.spaces root = some pages →
    ∀ v, vmmVirtToPhys s.phys.mem root v = lookup pages v
  hardware : ∀ root pages, s.spaces root = some pages →
    ∀ v, hwTranslate s.phys.mem root v = (pages (pageKey v)).map fun frame => frame + v % 2 ^ 12
  live_apart : ∀ root pages, s.spaces root = some pages →
    ∀ path table, tableAt s.phys.mem root path = some table →
      ∀ o, s.session.Live o → Disjoint (s.session.range o) (Set.Ico table (table + pageSize))
  tables_apart : ∀ root root' pages pages', s.spaces root = some pages →
    s.spaces root' = some pages' → root ≠ root' →
      ∀ path path' table table', tableAt s.phys.mem root path = some table →
        tableAt s.phys.mem root' path' = some table' → table ≠ table'

/-- The component that an owner of memory is a client of. -/
def Owner.allocator : Owner → Allocator
  | .payload _ => .heap
  | .chunk _ _ => .zones
  | .slot _ => .heap
  | .frame _ => .callers

theorem framesBy_allocator (t : Session) (o : Owner) : t.framesBy o.allocator = t.domain o := by
  cases o with
  | payload ptr => rfl
  | chunk i c => rfl
  | slot handle => rfl
  | frame number => rfl

theorem VirtualInv.undisturbed {s : VirtualSession} {total : Nat} {reserved : Set Nat}
    (inv : VirtualInv s total reserved) : Undisturbed s := by
  have held : ∀ {root pages path table}, s.spaces root = some pages →
      tableAt s.phys.mem root path = some table →
        table / pageSize ∈ s.domain (.space root) ∧ table / pageSize * pageSize = table := by
    intro root pages path table isSpace found
    have tree := (inv.space root pages isSpace).tree
    rw [domain_of_space isSpace]
    exact ⟨tree.frame_mem found, (tree.tables path table found).frame_mul⟩
  constructor
  case software => exact fun root pages isSpace => (inv.space root pages isSpace).lookup_eq
  case hardware => exact fun root pages isSpace => (inv.space root pages isSpace).translated
  case live_apart =>
    intro root pages isSpace path table found o live
    rcases held isSpace found with ⟨member, start⟩
    have inTable : ∀ place ∈ Set.Ico table (table + pageSize),
        ∃ frame ∈ ({table / pageSize} : Set Nat), frame * pageSize ≤ place ∧
          place < (frame + 1) * pageSize := by
      rintro place ⟨low, high⟩
      refine ⟨_, rfl, ?_, ?_⟩
      · rw [start]
        exact low
      · rw [Nat.succ_mul, start]
        exact high
    apply SessionInv.disjoint_of_domains (fun _ inside => inv.session.range_domain live inside)
      inTable
    rintro frame inDomain rfl
    rw [← framesBy_allocator] at inDomain
    exact inv.partition.apart (.allocator o.allocator) _ (by simp) _ inDomain member
  case tables_apart =>
    rintro root root' pages pages' isSpace isSpace' different path path' table _ found found' rfl
    refine inv.partition.apart (.space root) (.space root') ?_ _ (held isSpace found).1
      (held isSpace' found').1
    exact fun same => different (Holder.space.inj same)

/-- After boot, in the same runs, every address space that began as a cleared frame translates by
its own calls only, and nobody can write to a table.  It matters that the calls are served: with
no frame left `vmm_map_page` takes frame 0 for a table of several spaces. -/
theorem reachable_undisturbed {s : VirtualSession} {phys : PhysState}
    (bound : totalMemoryBytes < 2 ^ 64) (image : 0 < kernelEnd)
    (fits : ImageFits (ramSize totalMemoryBytes) kernelEnd)
    (width : ramSize totalMemoryBytes ≤ 2 ^ 52)
    (reachable : VirtualSession.Reachable totalMemoryBytes kernelEnd phys s) : Undisturbed s :=
  (reachable.inv bound image fits width).undisturbed

end Boot

/-! ## A small machine -/

/-- On a machine of eight frames, the first free frame becomes a top-level table, and a page is
mapped below it. -/
def smallSpaces : VirtualSession :=
  let created := VirtualSession.create ⟨smallSession, fun _ => none⟩ 2
  created.withSpace (vmmMapPage 8192 0x400000 0x5000 2 created.phys) 8192
    (Function.update (fun _ => none) (pageKey 0x400000) (some 0x5000))

theorem smallSpaces_reachable :
    VirtualSession.Reachable 32768 4000 ⟨fun _ => 0, ⟨0, 0, 0, 0⟩⟩ smallSpaces := by
  have address : (pmmAllocFrame (Session.boot 32768 4000
      ⟨fun _ => 0, ⟨0, 0, 0, 0⟩⟩).kernel.phys).1 = 2 * pageSize := by decide +kernel
  have member : 2 ∈ smallSession.frames := by
    apply Or.inr
    rw [address, framesOf_address (by decide), frames_single]
    rfl
  have taken : VirtualSession.Step (VirtualSession.boot 32768 4000 _)
      ⟨smallSession, fun _ => none⟩ := .allocators Session.Step.allocFrame
  have created : VirtualSession.Step ⟨smallSession, fun _ => none⟩ _ :=
    .create 2 member Paging.smallMachine_zero
  have empty : VirtualSession.spaces (.create ⟨smallSession, fun _ => none⟩ 2) 8192 =
      some fun _ => none := create_spaces _ 2
  have mapped : VirtualSession.Step _ smallSpaces :=
    .map empty 0x400000 0x5000 2 Paging.smallMachine_served
  exact ((Relation.ReflTransGen.single taken).tail created).tail mapped

/-- The heap then takes a frame, and everything is accounted for. -/
theorem reachable_nothingLost_small :
    NothingLost smallSpaces 8 2 ∧ smallSpaces.phys.Used 5 ∧ smallSpaces.phys.Free 6 := by
  refine ⟨?_, by decide +kernel, by decide +kernel⟩
  exact reachable_nothingLost (by decide) (by decide) (imageFits_of_le (by decide) (by decide))
    (by decide) smallSpaces_reachable

theorem reachable_undisturbed_small :
    let s : VirtualSession :=
      ⟨smallSpaces.session.withSlab (smallSpaces.session.slab.zalloc 100), smallSpaces.spaces⟩
    Undisturbed s ∧ (Slab.zalloc 100 smallSpaces.session.slab.slab).1 = 28544 ∧
      vmmVirtToPhys s.phys.mem 8192 0x400123 = 0x5123 := by
  have undisturbed := reachable_undisturbed (by decide) (by decide)
    (imageFits_of_le (by decide) (by decide)) (by decide)
    (smallSpaces_reachable.tail (.allocators (Session.Step.zalloc 100)))
  have isSpace : smallSpaces.spaces 8192 =
      some (Function.update (fun _ => none) (pageKey 0x400000) (some 0x5000)) :=
    withSpace_spaces _ _ _ _
  refine ⟨undisturbed, by decide +kernel, ?_⟩
  rw [undisturbed.software 8192 _ isSpace]
  rfl

end Kernel
end AuraKernel
