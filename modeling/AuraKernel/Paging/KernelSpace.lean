import AuraKernel.Paging.Calls
import AuraKernel.Paging.BootTables
import Mathlib.Logic.Relation

namespace AuraKernel
namespace Paging

open Machine
open Physical

/-!
# The kernel's address space

`vmm_init` keeps the tables of `boot/entry64.S`.  The walkers follow every
present entry, so that below the first gigabyte, which the boot tables map with
large pages, they take a large page for a page table: `vmm_map_page` writes its
entry to ordinary memory there and maps nothing.  Everywhere else the calls
write to tables only and translate one page anew.
-/

/-- The memory and the frame manager after boot. -/
def bootKernel (bootPml4 totalMemoryBytes kernelEnd : Nat) (s : PhysState) : PhysState :=
  kernelMainPmm totalMemoryBytes kernelEnd { s with mem := bootTables bootPml4 s.mem }

/-- The boot tables lie in the kernel image, which the 32-bit start code can
address, and physical addresses have 52 bits. -/
structure BootLayout (bootPml4 totalMemoryBytes kernelEnd : Nat) : Prop where
  aligned : bootPml4 % 2 ^ 12 = 0
  positive : 0 < bootPml4
  inImage : bootPml4 + 12288 ≤ kernelEnd
  low : kernelEnd ≤ 2 ^ 32
  memory : ramSize totalMemoryBytes ≤ 2 ^ 52

/-- Canonical addresses repeat bit 47 in the bits above. -/
def Canonical (virt : Nat) : Prop := virt < 2 ^ 47 ∨ 2 ^ 64 - 2 ^ 47 ≤ virt ∧ virt < 2 ^ 64

/-- The calls for the addresses in `allowed`, during which the manager does not
run out of frames. -/
inductive SpaceStep (pml4 : Nat) (allowed : Nat → Prop) : PhysState → PhysState → Prop
  | map {s : PhysState} (virt phys flags : Nat) (permitted : allowed virt)
      (served : MapServed pml4 virt s) :
      SpaceStep pml4 allowed s (vmmMapPage pml4 virt phys flags s)
  | unmap {s : PhysState} (virt : Nat) (permitted : allowed virt) :
      SpaceStep pml4 allowed s { s with mem := vmmUnmapPage pml4 virt s.mem }

/-- The states that these calls can reach. -/
def SpaceReachable (pml4 : Nat) (allowed : Nat → Prop) : PhysState → PhysState → Prop :=
  Relation.ReflTransGen (SpaceStep pml4 allowed)

/-- Outside the manager's bitmap, only tables have changed. -/
def OnlyTables (s s' : PhysState) (root : Nat) : Prop :=
  ∀ place, place ∉ s.bitmapBytes → s'.mem place ≠ s.mem place →
    ∃ path table, tableAt s'.mem root path = some table ∧ table ≤ place ∧ place < table + pageSize

/-- The calls for an address write to tables only, and change the hardware
translation of the page of the address and of no other page. -/
structure CallsFaithful (pml4 virt : Nat) (s : PhysState) : Prop where
  map_only_tables : ∀ phys flags, MapServed pml4 virt s →
    OnlyTables s (vmmMapPage pml4 virt phys flags s) pml4
  map_only_page : ∀ phys flags, MapServed pml4 virt s → ∀ v,
    hwTranslate (vmmMapPage pml4 virt phys flags s).mem pml4 v =
      if pageKey v = pageKey virt then some ((phys &&& pteAddrMask) + v % 2 ^ 12)
      else hwTranslate s.mem pml4 v
  unmap_only_tables : OnlyTables s { s with mem := vmmUnmapPage pml4 virt s.mem } pml4
  unmap_only_page : ∀ v, hwTranslate (vmmUnmapPage pml4 virt s.mem) pml4 v =
    if pageKey v = pageKey virt then none else hwTranslate s.mem pml4 v

/-- The address is not in the first gigabyte. -/
def AboveIdentity (virt : Nat) : Prop := 2 ^ 30 ≤ virt % 2 ^ 48

/-- The tree of the kernel: the tables of boot with their large pages, and below
other entries page tables with small pages. -/
structure KernelInv (s : PhysState) (root : Nat) (reserved : Set Nat) : Prop where
  tree : TreeInv s root reserved
  pdpt : tableAt s.mem root [0] = some (root + 4096)
  pd : tableAt s.mem root [0, 0] = some (root + 8192)
  identity : ∀ j e, Leaf s.mem root [0, 0] j e ↔ j < 512 ∧ e = 0x83 + j * 0x200000
  shape : ∀ p j e, Leaf s.mem root p j e → p.length = 3 ∨ p = [0, 0]

instance (virt : Nat) : Decidable (AboveIdentity virt) := inferInstanceAs (Decidable (_ ≤ _))

theorem AboveIdentity.path_ne {virt : Nat} (above : AboveIdentity virt) :
    [pml4Index virt, pdptIndex virt] ≠ [0, 0] := by
  simp only [ne_eq, List.cons.injEq, and_true, pml4Index_eq, pdptIndex_eq]
  unfold AboveIdentity at above
  omega

section Boot

variable {bootPml4 totalMemoryBytes kernelEnd : Nat}

theorem BootLayout.fits (boot : BootLayout bootPml4 totalMemoryBytes kernelEnd) :
    ImageFits (ramSize totalMemoryBytes) kernelEnd :=
  imageFits_of_le (Nat.lt_of_le_of_lt boot.memory (by decide))
    (Nat.le_trans boot.low (by decide))

theorem BootLayout.ram_lt (boot : BootLayout bootPml4 totalMemoryBytes kernelEnd) :
    ramSize totalMemoryBytes < 2 ^ 64 :=
  Nat.lt_of_le_of_lt boot.memory (by decide)

theorem BootLayout.space (boot : BootLayout bootPml4 totalMemoryBytes kernelEnd) (s : PhysState) :
    FrameSpace (bootKernel bootPml4 totalMemoryBytes kernelEnd s) 0
      {frame | frame < reservedFrames (ramSize totalMemoryBytes) kernelEnd} := by
  have inImage := boot.inImage
  exact frameSpace_setupPmm _ boot.ram_lt (by omega) boot.fits

theorem BootLayout.totalFrames_eq (boot : BootLayout bootPml4 totalMemoryBytes kernelEnd)
    (s : PhysState) :
    (bootKernel bootPml4 totalMemoryBytes kernelEnd s).pmm.totalFrames =
      ramSize totalMemoryBytes / pageSize :=
  (setupPmm_spec { s with mem := bootTables bootPml4 s.mem } boot.ram_lt kernelEnd).2.1

/-- The bitmap lies behind the kernel image. -/
theorem BootLayout.bitmap_behind (boot : BootLayout bootPml4 totalMemoryBytes kernelEnd)
    (s : PhysState) {place : Nat}
    (inBitmap : place ∈ (bootKernel bootPml4 totalMemoryBytes kernelEnd s).bitmapBytes) :
    kernelEnd ≤ place := by
  have behind := (reserved_cover boot.fits).1
  have bitmap := (setupPmm_spec { s with mem := bootTables bootPml4 s.mem } boot.ram_lt
    kernelEnd).2.2.1
  unfold PhysState.bitmapBytes at inBitmap
  have low := inBitmap.1
  change (setupPmm _ _ _).pmm.bitmap ≤ place at low
  rw [bitmap] at low
  exact Nat.le_trans behind low

/-- The set-up of the manager leaves the kernel image alone. -/
theorem BootLayout.image_eq (boot : BootLayout bootPml4 totalMemoryBytes kernelEnd)
    (s : PhysState) {place : Nat} (inImage : place < kernelEnd) :
    (bootKernel bootPml4 totalMemoryBytes kernelEnd s).mem place =
      bootTables bootPml4 s.mem place := by
  apply setupPmm_mem_of_outside _ boot.ram_lt
  intro inBitmap
  exact absurd (boot.bitmap_behind s inBitmap) (Nat.not_le.mpr inImage)

theorem BootLayout.entry_eq (boot : BootLayout bootPml4 totalMemoryBytes kernelEnd)
    (s : PhysState) {table index : Nat} (inImage : table + 4096 ≤ kernelEnd)
    (bound : index < 512) :
    entry (bootKernel bootPml4 totalMemoryBytes kernelEnd s).mem table index =
      entry (bootTables bootPml4 s.mem) table index := by
  apply entry_congr bound
  intro place _ high
  apply boot.image_eq
  unfold pageSize at high
  omega

/-- The entries of the top-level table: the first one is a link, the others are 0. -/
theorem BootLayout.slot_pml4 (boot : BootLayout bootPml4 totalMemoryBytes kernelEnd)
    (s : PhysState) {index : Nat} (bound : index < 512) :
    nextTable 0 (entry (bootKernel bootPml4 totalMemoryBytes kernelEnd s).mem bootPml4 index) =
      (if index = 0 then some (bootPml4 + 4096) else none) ∧
    (index ≠ 0 →
      entry (bootKernel bootPml4 totalMemoryBytes kernelEnd s).mem bootPml4 index = 0) := by
  have aligned := boot.aligned
  have inImage := boot.inImage
  have low := boot.low
  rw [boot.entry_eq s (by omega) bound, entry_bootPml4 aligned (Nat.le_trans inImage low) bound]
  by_cases first : index = 0
  · rw [if_pos first, if_pos first, nextTable_eq_some_iff, isPresent_iff]
    refine ⟨⟨⟨by decide, by omega, Or.inl rfl⟩, ?_⟩, fun other => absurd first other⟩
    exact @link_and_addrMask (bootPml4 + 4096) 3 (by omega) (by omega) (by decide)
  · rw [if_neg first, if_neg first]
    exact ⟨nextTable_absent (by decide), fun _ => rfl⟩

/-- The entries of the page-directory-pointer table. -/
theorem BootLayout.slot_pdpt (boot : BootLayout bootPml4 totalMemoryBytes kernelEnd)
    (s : PhysState) {index : Nat} (bound : index < 512) :
    nextTable 1
        (entry (bootKernel bootPml4 totalMemoryBytes kernelEnd s).mem (bootPml4 + 4096) index) =
      (if index = 0 then some (bootPml4 + 8192) else none) ∧
    (index ≠ 0 →
      entry (bootKernel bootPml4 totalMemoryBytes kernelEnd s).mem (bootPml4 + 4096) index =
        0) := by
  have aligned := boot.aligned
  have inImage := boot.inImage
  have low := boot.low
  rw [boot.entry_eq s (by omega) bound, entry_bootPdpt aligned (Nat.le_trans inImage low) bound]
  by_cases first : index = 0
  · rw [if_pos first, if_pos first, nextTable_eq_some_iff, isPresent_iff]
    refine ⟨⟨⟨by decide, by omega, Or.inr ?_⟩, ?_⟩, fun other => absurd first other⟩
    · exact @not_isLarge_link (bootPml4 + 8192) 3 (by omega) (by decide)
    · exact @link_and_addrMask (bootPml4 + 8192) 3 (by omega) (by omega) (by decide)
  · rw [if_neg first, if_neg first]
    exact ⟨nextTable_absent (by decide), fun _ => rfl⟩

/-- A large page of the boot page directory. -/
theorem bootPage_large (index : Nat) :
    IsPresent (0x83 + index * 0x200000) ∧ IsLarge (0x83 + index * 0x200000) := by
  rw [isPresent_iff, isLarge_iff_mod]
  omega

/-- The entries of the page directory are large pages. -/
theorem BootLayout.slot_pd (boot : BootLayout bootPml4 totalMemoryBytes kernelEnd)
    (s : PhysState) {index : Nat} (bound : index < 512) :
    nextTable 2
        (entry (bootKernel bootPml4 totalMemoryBytes kernelEnd s).mem (bootPml4 + 8192) index) =
      none ∧
    entry (bootKernel bootPml4 totalMemoryBytes kernelEnd s).mem (bootPml4 + 8192) index =
      0x83 + index * 0x200000 := by
  have inImage := boot.inImage
  rw [boot.entry_eq s (by omega) bound, entry_bootPd bound]
  refine ⟨if_neg ?_, rfl⟩
  rintro ⟨_, _, pointer⟩
  exact pointer.resolve_left (by decide) (bootPage_large index).2

/-- Three tables are there after boot. -/
theorem BootLayout.tableAt_iff (boot : BootLayout bootPml4 totalMemoryBytes kernelEnd)
    (s : PhysState) {path : List Nat} {table : Nat} :
    tableAt (bootKernel bootPml4 totalMemoryBytes kernelEnd s).mem bootPml4 path = some table ↔
      (path = [] ∧ table = bootPml4) ∨ (path = [0] ∧ table = bootPml4 + 4096) ∨
        (path = [0, 0] ∧ table = bootPml4 + 8192) := by
  have path4 : tableAt (bootKernel bootPml4 totalMemoryBytes kernelEnd s).mem bootPml4 [0] =
      some (bootPml4 + 4096) :=
    (@tableAt_concat _ _ [] 0 _).mpr ⟨bootPml4, rfl, by decide, (boot.slot_pml4 s (by decide)).1⟩
  have path3 : tableAt (bootKernel bootPml4 totalMemoryBytes kernelEnd s).mem bootPml4 [0, 0] =
      some (bootPml4 + 8192) :=
    (@tableAt_concat _ _ [0] 0 _).mpr
      ⟨bootPml4 + 4096, path4, by decide, (boot.slot_pdpt s (by decide)).1⟩
  constructor
  · intro found
    induction path using List.reverseRecOn generalizing table with
    | nil => exact Or.inl ⟨rfl, (Option.some.inj found).symm⟩
    | append_singleton path index inductionHypothesis =>
        rcases tableAt_concat.mp found with ⟨last, reached, bound, next⟩
        rcases inductionHypothesis reached with ⟨rfl, rfl⟩ | ⟨rfl, rfl⟩ | ⟨rfl, rfl⟩
        · have slot := (boot.slot_pml4 s bound).1.symm.trans next
          by_cases first : index = 0
          · subst first
            exact Or.inr (Or.inl ⟨rfl, (Option.some.inj slot).symm⟩)
          · rw [if_neg first] at slot
            cases slot
        · have slot := (boot.slot_pdpt s bound).1.symm.trans next
          by_cases first : index = 0
          · subst first
            exact Or.inr (Or.inr ⟨rfl, (Option.some.inj slot).symm⟩)
          · rw [if_neg first] at slot
            cases slot
        · cases (boot.slot_pd s bound).1.symm.trans next
  · rintro (⟨rfl, rfl⟩ | ⟨rfl, rfl⟩ | ⟨rfl, rfl⟩)
    · rfl
    · exact path4
    · exact path3

/-- A page of the kernel image can serve as a table. -/
theorem BootLayout.isTable (boot : BootLayout bootPml4 totalMemoryBytes kernelEnd) (s : PhysState)
    {table : Nat} (aligned : table % pageSize = 0) (inImage : table + 4096 ≤ kernelEnd) :
    IsTable (bootKernel bootPml4 totalMemoryBytes kernelEnd s) table := by
  rcases setupPmm_spec { s with mem := bootTables bootPml4 s.mem } boot.ram_lt kernelEnd with
    ⟨_, total, _, usedIff⟩
  refine ⟨aligned, fun inMemory => ?_, fun place inBitmap => ?_⟩
  · change table / pageSize < (setupPmm _ _ _).pmm.totalFrames at inMemory
    rw [total] at inMemory
    apply (usedIff _ inMemory).mpr
    rcases reserved_cover boot.fits with ⟨behind, covers⟩
    unfold pageSize at *
    omega
  · have behind := boot.bitmap_behind s inBitmap
    unfold pageSize
    omega

/-- The kernel's address space after boot. -/
theorem BootLayout.inv (boot : BootLayout bootPml4 totalMemoryBytes kernelEnd) (s : PhysState) :
    KernelInv (bootKernel bootPml4 totalMemoryBytes kernelEnd s) bootPml4
      {frame | frame < reservedFrames (ramSize totalMemoryBytes) kernelEnd} := by
  have aligned : bootPml4 % pageSize = 0 := boot.aligned
  have inImage := boot.inImage
  constructor
  case tree =>
    refine ⟨boot.space s, ?_, ?_, ?_⟩
    · rw [boot.totalFrames_eq]
      exact Nat.le_trans (Nat.div_mul_le_self _ _) boot.memory
    · intro p q table reachedP reachedQ
      rcases (boot.tableAt_iff s).mp reachedP with ⟨rfl, same⟩ | ⟨rfl, same⟩ | ⟨rfl, same⟩ <;>
        rcases (boot.tableAt_iff s).mp reachedQ with ⟨rfl, same'⟩ | ⟨rfl, same'⟩ | ⟨rfl, same'⟩ <;>
          first | rfl | omega
    · intro path table found
      unfold pageSize at aligned
      rcases (boot.tableAt_iff s).mp found with ⟨_, rfl⟩ | ⟨_, rfl⟩ | ⟨_, rfl⟩
      all_goals
        apply boot.isTable s
        · unfold pageSize
          omega
        · omega
  case pdpt => exact (boot.tableAt_iff s).mpr (Or.inr (Or.inl ⟨rfl, rfl⟩))
  case pd => exact (boot.tableAt_iff s).mpr (Or.inr (Or.inr ⟨rfl, rfl⟩))
  case identity =>
    intro j e
    constructor
    · rintro ⟨table, found, bound, rfl, _, _⟩
      rcases (boot.tableAt_iff s).mp found with ⟨impossible, _⟩ | ⟨impossible, _⟩ | ⟨_, rfl⟩
      · cases impossible
      · cases impossible
      · exact ⟨bound, (boot.slot_pd s bound).2⟩
    · rintro ⟨bound, rfl⟩
      rcases boot.slot_pd s bound with ⟨noLink, same⟩
      refine ⟨bootPml4 + 8192, (boot.tableAt_iff s).mpr (Or.inr (Or.inr ⟨rfl, rfl⟩)), bound, same,
        (bootPage_large j).1, ?_⟩
      rw [← same]
      exact noLink
  case shape =>
    rintro p j e ⟨table, found, bound, rfl, present, noLink⟩
    rcases (boot.tableAt_iff s).mp found with ⟨rfl, rfl⟩ | ⟨rfl, rfl⟩ | ⟨rfl, rfl⟩
    · rcases boot.slot_pml4 s bound with ⟨link, zero⟩
      by_cases first : j = 0
      · rw [if_pos first] at link
        cases link.symm.trans noLink
      · rw [zero first] at present
        exact absurd rfl present
    · rcases boot.slot_pdpt s bound with ⟨link, zero⟩
      by_cases first : j = 0
      · rw [if_pos first] at link
        cases link.symm.trans noLink
      · rw [zero first] at present
        exact absurd rfl present
    · exact Or.inr rfl

end Boot

section Calls

variable {s s' : PhysState} {root virt : Nat} {reserved : Set Nat}

namespace KernelInv

/-! ## Above the first gigabyte -/

/-- Above the first gigabyte there are no large pages. -/
theorem noLargeLeaf (inv : KernelInv s root reserved) (above : AboveIdentity virt) :
    NoLargeLeaf s.mem root virt :=
  noLargeLeaf_of_shape
    (fun p j e leaf => (inv.shape p j e leaf).imp_right fun first => ⟨trivial, first⟩)
    fun _ => above.path_ne

theorem update (inv : KernelInv s root reserved) {value : Nat}
    (effect : TreeEffect s s' root reserved)
    (updated : LeafUpdated s.mem s'.mem root (pagePath virt) (ptIndex virt) value) :
    KernelInv s' root reserved where
  tree := effect.inv
  pdpt := effect.mono _ _ inv.pdpt
  pd := effect.mono _ _ inv.pd
  identity := by
    intro j e
    refine (updated _ j e).trans ?_
    have elsewhere : ¬ ([0, 0] = pagePath virt ∧ j = ptIndex virt) := by
      rintro ⟨impossible, _⟩
      exact absurd (congrArg List.length impossible) (by simp [pagePath])
    rw [if_neg elsewhere]
    exact inv.identity j e
  shape := updated.places inv.shape (Or.inl rfl)

/-- Above the first gigabyte the calls do what they should. -/
theorem callsFaithful (inv : KernelInv s root reserved) (above : AboveIdentity virt) :
    CallsFaithful root virt s := by
  have noLarge := inv.noLargeLeaf above
  constructor
  case map_only_tables =>
    intro phys flags served
    exact (inv.tree.map noLarge served phys flags).1.only_tables
  case map_only_page =>
    intro phys flags served v
    rw [(inv.tree.map noLarge served phys flags).2.hwTranslate noLarge v,
      if_pos (isPresent_pageEntry phys flags), pageEntry_and_addrMask]
  case unmap_only_tables => exact (inv.tree.unmap noLarge).1.only_tables
  case unmap_only_page =>
    intro v
    rw [(inv.tree.unmap noLarge).2.hwTranslate noLarge v, if_neg (show ¬ IsPresent 0 by decide)]

theorem step (inv : KernelInv s root reserved) (step : SpaceStep root AboveIdentity s s') :
    KernelInv s' root reserved := by
  cases step with
  | map virt phys flags permitted served =>
      rcases inv.tree.map (inv.noLargeLeaf permitted) served phys flags with ⟨effect, updated⟩
      exact inv.update effect updated
  | unmap virt permitted =>
      rcases inv.tree.unmap (inv.noLargeLeaf permitted) with ⟨effect, updated⟩
      exact inv.update effect updated

/-! ## Below the first gigabyte -/

/-- The first entry of the top-level table is a link. -/
theorem pml4_link (inv : KernelInv s root reserved) :
    IsPresent (entry s.mem root 0) ∧ (entry s.mem root 0 &&& pteAddrMask) = root + 4096 := by
  rcases (@tableAt_concat s.mem root [] 0 _).mp inv.pdpt with ⟨table, found, _, link⟩
  cases found
  rcases nextTable_eq_some_iff.mp link with ⟨⟨_, present, _⟩, address⟩
  exact ⟨present, address⟩

/-- So is the first entry of the page-directory-pointer table. -/
theorem pdpt_link (inv : KernelInv s root reserved) :
    IsPresent (entry s.mem (root + 4096) 0) ∧ ¬ IsLarge (entry s.mem (root + 4096) 0) ∧
      (entry s.mem (root + 4096) 0 &&& pteAddrMask) = root + 8192 := by
  rcases (@tableAt_concat s.mem root [0] 0 _).mp inv.pd with ⟨table, found, _, link⟩
  rw [inv.pdpt] at found
  cases found
  rcases nextTable_eq_some_iff.mp link with ⟨⟨_, present, pointer⟩, address⟩
  exact ⟨present, pointer.resolve_left (by decide), address⟩

/-- The page directory holds the large pages of boot. -/
theorem pd_entry (inv : KernelInv s root reserved) {index : Nat} (bound : index < 512) :
    entry s.mem (root + 8192) index = 0x83 + index * 0x200000 := by
  rcases (inv.identity index _).mpr ⟨bound, rfl⟩ with ⟨table, found, _, same, _⟩
  rw [inv.pd] at found
  cases found
  exact same

/-- A walk that ends at an entry of the page directory of boot. -/
theorem hwTranslate_large {mem : Mem} {e : Nat} (first : pml4Index virt = 0)
    (second : pdptIndex virt = 0)
    (link4 : IsPresent (entry mem root 0) ∧ (entry mem root 0 &&& pteAddrMask) = root + 4096)
    (link3 : IsPresent (entry mem (root + 4096) 0) ∧ ¬ IsLarge (entry mem (root + 4096) 0) ∧
      (entry mem (root + 4096) 0 &&& pteAddrMask) = root + 8192)
    (leaf : entry mem (root + 8192) (pdIndex virt) = e) (present : IsPresent e)
    (large : IsLarge e) :
    hwTranslate mem root virt = some ((e &&& largeAddrMask) + virt % 2 ^ 21) := by
  unfold hwTranslate
  dsimp only
  rw [first, second, if_neg (not_not.mpr link4.1), link4.2, if_neg (not_not.mpr link3.1),
    if_neg link3.2.1, link3.2.2, leaf, if_neg (not_not.mpr present), if_pos large]

theorem bootPage_and_addrMask {index : Nat} (bound : index < 512) :
    (0x83 + index * 0x200000) &&& pteAddrMask = index * 0x200000 := by
  rw [and_addrMask]
  omega

/-- The indices of an address in the first gigabyte. -/
theorem low_indices (below : ¬ AboveIdentity virt) : pml4Index virt = 0 ∧ pdptIndex virt = 0 := by
  unfold AboveIdentity at below
  rw [pml4Index_eq, pdptIndex_eq]
  omega

/-- The three tables are there, or what is taken for them. -/
theorem low_walk (inv : KernelInv s root reserved) (below : ¬ AboveIdentity virt) :
    ensurePdpt root virt s = (root + 4096, s) ∧ ensurePd root virt s = (root + 8192, s) ∧
      ensurePt root virt s = (pdIndex virt * 0x200000, s) := by
  rcases low_indices below with ⟨first, second⟩
  have pdpt : ensurePdpt root virt s = (root + 4096, s) := by
    unfold ensurePdpt
    rw [first, ensureTable_present inv.pml4_link.1, inv.pml4_link.2]
  have pd : ensurePd root virt s = (root + 8192, s) := by
    unfold ensurePd
    rw [pdpt, second, ensureTable_present inv.pdpt_link.1, inv.pdpt_link.2.2]
  have present : IsPresent (entry s.mem (root + 8192) (pdIndex virt)) := by
    rw [inv.pd_entry (pdIndex_lt virt)]
    exact (bootPage_large _).1
  refine ⟨pdpt, pd, ?_⟩
  unfold ensurePt
  rw [pd, ensureTable_present present, inv.pd_entry (pdIndex_lt virt),
    bootPage_and_addrMask (pdIndex_lt virt)]

/-- In the first gigabyte `vmm_map_page` asks for no frame and writes one word of
the large page. -/
theorem low_map (inv : KernelInv s root reserved) (below : ¬ AboveIdentity virt) :
    MapServed root virt s ∧ ∀ phys flags, vmmMapPage root virt phys flags s =
      { s with
        mem :=
          setEntry (pdIndex virt * 0x200000) (ptIndex virt) (pageEntry phys flags) s.mem } := by
  rcases low_indices below with ⟨first, second⟩
  rcases inv.low_walk below with ⟨pdpt, pd, pt⟩
  constructor
  · constructor
    case pdpt =>
      rw [first]
      exact fun absent => absurd inv.pml4_link.1 absent
    case pd =>
      rw [pdpt, second]
      exact fun absent => absurd inv.pdpt_link.1 absent
    case pt =>
      rw [pd]
      intro absent
      rw [inv.pd_entry (pdIndex_lt virt)] at absent
      exact absurd (bootPage_large _).1 absent
  · intro phys flags
    rw [vmmMapPage_eq, pt]

theorem pageEntry_plain {phys : Nat} (aligned : phys % 2 ^ 12 = 0) (low : phys < 2 ^ 52) :
    pageEntry phys 0 = phys + 1 := by
  have field : (phys &&& pteAddrMask) = phys := by
    rw [and_addrMask]
    omega
  unfold pageEntry
  rw [field, Nat.zero_and, Nat.or_zero]
  exact or_of_aligned aligned (by decide)

/-- A link to a table, written as the entry of a page. -/
theorem pageEntry_link {phys : Nat} (aligned : phys % 2 ^ 12 = 0) (low : phys < 2 ^ 52) :
    IsPresent (wrap64 (pageEntry phys 0)) ∧ ¬ IsLarge (wrap64 (pageEntry phys 0)) ∧
      (wrap64 (pageEntry phys 0) &&& pteAddrMask) = phys := by
  rw [wrap64_of_lt (pageEntry_lt phys 0), pageEntry_plain aligned low, isPresent_iff]
  exact ⟨by omega, not_isLarge_link aligned (by decide),
    link_and_addrMask aligned low (by decide)⟩

/-- In the first gigabyte some call of `vmm_map_page` does not map its page: the
address keeps its translation, or it gets one that the caller did not ask for. -/
theorem not_callsFaithful (inv : KernelInv s root reserved) (positive : 0 < root)
    (below : ¬ AboveIdentity virt) : ¬ CallsFaithful root virt s := by
  intro faithful
  rcases low_indices below with ⟨first, second⟩
  rcases inv.low_map below with ⟨served, mapped⟩
  have aligned := (inv.tree.tables [] root rfl).aligned
  have pdBound := pdIndex_lt virt
  have ptBound := ptIndex_lt virt
  have ptEq := ptIndex_eq virt
  unfold pageSize at aligned
  generalize place : pdIndex virt * 0x200000 = page at mapped
  -- if the walk still ends at a large page, that page must spell the request out
  have requested : ∀ phys flags e,
      IsPresent (entry (setEntry page (ptIndex virt) (pageEntry phys flags) s.mem) root 0) ∧
        (entry (setEntry page (ptIndex virt) (pageEntry phys flags) s.mem) root 0 &&&
          pteAddrMask) = root + 4096 →
      IsPresent (entry (setEntry page (ptIndex virt) (pageEntry phys flags) s.mem)
          (root + 4096) 0) ∧
        ¬ IsLarge (entry (setEntry page (ptIndex virt) (pageEntry phys flags) s.mem)
          (root + 4096) 0) ∧
        (entry (setEntry page (ptIndex virt) (pageEntry phys flags) s.mem) (root + 4096) 0 &&&
          pteAddrMask) = root + 8192 →
      entry (setEntry page (ptIndex virt) (pageEntry phys flags) s.mem) (root + 8192)
        (pdIndex virt) = e → IsPresent e → IsLarge e →
      (e &&& largeAddrMask) + virt % 2 ^ 21 = (phys &&& pteAddrMask) + virt % 2 ^ 12 := by
    intro phys flags e link4 link3 leaf present large
    have only := faithful.map_only_page phys flags served virt
    rw [if_pos rfl, mapped] at only
    exact Option.some.inj
      ((hwTranslate_large first second link4 link3 leaf present large).symm.trans only)
  have kept : ∀ {table index : Nat} (value : Nat), table + 8 * index ≠ page + 8 * ptIndex virt →
      table % 4096 = 0 →
      entry (setEntry page (ptIndex virt) value s.mem) table index = entry s.mem table index := by
    intro table index value different tableAligned
    apply entry_setEntry_disjoint
    omega
  have written : ∀ {table index : Nat} (value : Nat), table + 8 * index = page + 8 * ptIndex virt →
      entry (setEntry page (ptIndex virt) value s.mem) table index = wrap64 value := by
    intro table index value same
    unfold entry setEntry
    rw [same]
    exact Mem.load64_store64_same _ _ _
  have large := bootPage_large (pdIndex virt)
  have identity : ((0x83 + pdIndex virt * 0x200000) &&& largeAddrMask) + virt % 2 ^ 21 =
      page + ptIndex virt * 4096 + virt % 2 ^ 12 := by
    have offset : virt % 2 ^ 21 = ptIndex virt * 4096 + virt % 2 ^ 12 := by
      rw [ptEq]
      omega
    rw [bootPd_and_largeAddrMask pdBound, offset, ← place, Nat.add_assoc,
      show (2 : Nat) ^ 21 = 0x200000 from rfl]
  have directory := inv.pd_entry pdBound
  by_cases slot4 : root = page + 8 * ptIndex virt
  · -- the word is the link in the top-level table, and the call repeats it
    have link := @pageEntry_link (root + 4096) (by omega) (by omega)
    have wrong := requested (root + 4096) 0 _
      (by rw [@written root 0 _ slot4]; exact ⟨link.1, link.2.2⟩)
      (by rw [kept _ (by omega) (by omega)]; exact inv.pdpt_link)
      (by rw [kept _ (by omega) (by omega)]; exact directory) large.1 large.2
    rw [identity, and_addrMask] at wrong
    omega
  by_cases slot3 : root + 4096 = page + 8 * ptIndex virt
  · -- the same for the link in the page-directory-pointer table
    have link := @pageEntry_link (root + 8192) (by omega) (by omega)
    have wrong := requested (root + 8192) 0 _
      (by rw [kept _ (by omega) (by omega)]; exact inv.pml4_link)
      (by rw [@written (root + 4096) 0 _ slot3]; exact link)
      (by rw [kept _ (by omega) (by omega)]; exact directory) large.1 large.2
    rw [identity, and_addrMask] at wrong
    omega
  by_cases slot2 : root + 8192 + 8 * pdIndex virt = page + 8 * ptIndex virt
  · -- the word is the large page itself: the call makes it another large page
    have value : wrap64 (pageEntry 0 0x80) = 0x81 := by decide
    have wrong := requested 0 0x80 0x81
      (by rw [kept _ (by omega) (by omega)]; exact inv.pml4_link)
      (by rw [kept _ (by omega) (by omega)]; exact inv.pdpt_link)
      (by rw [@written (root + 8192) _ _ slot2]; exact value) (by decide) (by decide)
    rw [show 0x81 &&& largeAddrMask = 0 by decide, Nat.zero_and] at wrong
    omega
  · -- the word is ordinary memory, and the address keeps its translation
    have wrong := requested (2 ^ 30) 0 _
      (by rw [kept _ (by omega) (by omega)]; exact inv.pml4_link)
      (by rw [kept _ (by omega) (by omega)]; exact inv.pdpt_link)
      (by rw [kept _ slot2 (by omega)]; exact directory) large.1 large.2
    rw [identity, and_addrMask] at wrong
    omega

end KernelInv

end Calls

section Runs

variable {bootPml4 totalMemoryBytes kernelEnd : Nat}

/-- A whole run above the first gigabyte. -/
theorem BootLayout.reachable_inv (boot : BootLayout bootPml4 totalMemoryBytes kernelEnd)
    {start s : PhysState}
    (reachable : SpaceReachable bootPml4 AboveIdentity
      (bootKernel bootPml4 totalMemoryBytes kernelEnd start) s) :
    KernelInv s bootPml4 {frame | frame < reservedFrames (ramSize totalMemoryBytes) kernelEnd} := by
  induction reachable with
  | refl => exact boot.inv start
  | tail _ step inductionHypothesis => exact inductionHypothesis.step step

/-- After boot and any calls for addresses above the first gigabyte, the calls for
an address do what they should exactly if it is above the first gigabyte, too. -/
theorem callsFaithful_iff (boot : BootLayout bootPml4 totalMemoryBytes kernelEnd)
    {start s : PhysState}
    (reachable : SpaceReachable bootPml4 AboveIdentity
      (bootKernel bootPml4 totalMemoryBytes kernelEnd start) s) (virt : Nat) :
    CallsFaithful bootPml4 virt s ↔ AboveIdentity virt := by
  have inv := boot.reachable_inv reachable
  constructor
  · intro faithful
    by_contra below
    exact inv.not_callsFaithful boot.positive below faithful
  · exact inv.callsFaithful

end Runs

/-- A machine of 16 MiB with the boot tables at 0x110000. -/
def smallKernel : PhysState := bootKernel 0x110000 0x1000000 0x120000 ⟨fun _ => 0, ⟨0, 0, 0, 0⟩⟩

theorem smallKernel_layout : BootLayout 0x110000 0x1000000 0x120000 :=
  ⟨by decide, by decide, by decide, by decide, by decide⟩

/-- On it the second gigabyte can be mapped. -/
theorem callsFaithful_iff_small :
    CallsFaithful 0x110000 0x40000000
      { smallKernel with mem := vmmUnmapPage 0x110000 0x50000000 smallKernel.mem } :=
  (callsFaithful_iff smallKernel_layout
    (Relation.ReflTransGen.single (SpaceStep.unmap 0x50000000 (by decide)))
    0x40000000).mpr (by decide)

/-- A page cannot be mapped at 2 MiB: the entry goes to the memory there. -/
theorem not_callsFaithful_twoMegabytes :
    ¬ (∀ s, SpaceReachable 0x110000 Canonical smallKernel s →
        ∀ virt, Canonical virt → CallsFaithful 0x110000 virt s) ∧
      vmmMapPage 0x110000 0x200000 0x300000 2 smallKernel =
        { smallKernel with mem := setEntry 0x200000 0 0x300003 smallKernel.mem } := by
  have inv := smallKernel_layout.inv ⟨fun _ => 0, ⟨0, 0, 0, 0⟩⟩
  have below : ¬ AboveIdentity 0x200000 := by decide
  constructor
  · intro faithful
    exact inv.not_callsFaithful (by decide) below
      (faithful smallKernel Relation.ReflTransGen.refl 0x200000 (Or.inl (by decide)))
  · exact (inv.low_map below).2 0x300000 2

end Paging
end AuraKernel
