import AuraKernel.Boot.Entry

namespace AuraKernel
namespace Boot

open Machine Paging

/-!
# From paging to `kernel_main`

Behind the instruction that turns on paging every fetch and every access of `_start`
goes through the tables that it has built, and the processor notes its use of them.
The notes do not change what the tables map, so the rest of `_start` runs to the call
of `kernel_main`.
-/

namespace Entry

open Startup

section Phases

variable {l : Layout} {identifies : Bool} {cpuid : BitVec 32 → Leaf} {start s : State Sym}
  {code data : Bool} {mem : Mem}

/-! ## The notes -/

/-- The accessed bits of the two segments of `boot_gdt64`, as far as they are loaded. -/
def segmentNotes (l : Layout) (code data : Bool) (place : Nat) : UInt8 :=
  if code = true ∧ place = l.rodata + 13 ∨ data = true ∧ place = l.rodata + 21 then 1 else 0

/-- The memory while the tables are in use: there are the tables, but for the notes in them, and
the two variables; and outside of `.bss` there is what the loader has left, but for the notes in
`boot_gdt64`. -/
def TablesInUse (l : Layout) (start : State Sym) (code data : Bool) (mem : Mem) : Prop :=
  ∃ before : Mem, before.load32 (l.bss + 28672) = (start.low eax).toNat ∧
    before.load32 (l.bss + 28676) = (start.low ebx).toNat ∧
    (∀ place, place < l.bss + 12288 ∨ l.bss + 28680 ≤ place →
      before place = start.mem place ||| segmentNotes l code data place) ∧
    Mem.Agree (bootNotes l.bss) (bootTables l.bss before) mem

theorem segmentNotes_clear {place : Nat} (code : place ≠ l.rodata + 13)
    (data : place ≠ l.rodata + 21) (first second : Bool) :
    segmentNotes l first second place = 0 :=
  if_neg fun either => either.elim (fun here => code here.2) fun here => data here.2

theorem TablesBuilt.inUse (built : TablesBuilt l start mem) :
    TablesInUse l start false false mem := by
  rcases built with ⟨before, magic, info, outside, rfl⟩
  refine ⟨before, magic, info, fun place elsewhere => ?_, Mem.Agree.refl _ _⟩
  have none : segmentNotes l false false place = 0 := if_neg (by simp)
  rw [none, UInt8.or_zero]
  exact outside place elsewhere

theorem store_congr {mem mem' : Mem} {addr count value place : Nat}
    (same : mem place = mem' place) :
    mem.store addr count value place = mem'.store addr count value place := by
  unfold Mem.store
  rw [same]

theorem fillPd_congr {mem mem' : Mem} {bootPd count place : Nat} (same : mem place = mem' place) :
    fillPd bootPd count mem place = fillPd bootPd count mem' place := by
  induction count with
  | zero => exact same
  | succ count inductionHypothesis => exact store_congr (store_congr inductionHypothesis)

/-- The tables do not depend on what was there before. -/
theorem bootTables_congr {mem mem' : Mem} {bootPml4 place : Nat} (low : bootPml4 ≤ place)
    (high : place < bootPml4 + 12288) :
    bootTables bootPml4 mem place = bootTables bootPml4 mem' place := by
  refine fillPd_congr (store_congr (store_congr ?_))
  rw [Mem.fill_apply, Mem.fill_apply, if_pos ⟨low, high⟩, if_pos ⟨low, high⟩]

/-- What is done to other bytes could have come first. -/
theorem bootTables_comm {mem mem' other : Mem} {bootPml4 : Nat}
    (tables : ∀ place, bootPml4 ≤ place → place < bootPml4 + 12288 →
      other place = bootTables bootPml4 mem place)
    (outside : ∀ place, place < bootPml4 ∨ bootPml4 + 12288 ≤ place → other place = mem' place) :
    other = bootTables bootPml4 mem' := by
  funext place
  by_cases inside : bootPml4 ≤ place ∧ place < bootPml4 + 12288
  · rw [tables place inside.1 inside.2]
    exact bootTables_congr inside.1 inside.2
  · rw [bootTables_apply_of_outside (by omega)]
    exact outside place (by omega)

theorem bootTables_store {addr value bootPml4 : Nat} (behind : bootPml4 + 12288 ≤ addr) :
    (bootTables bootPml4 mem).store64 addr value =
      bootTables bootPml4 (mem.store64 addr value) := by
  apply @bootTables_comm mem
  · exact fun place low high => Mem.store64_apply_of_outside (by omega)
  · exact fun place elsewhere => store_congr (bootTables_apply_of_outside elsewhere)

theorem bootTables_setBits {place bootPml4 : Nat} {bits : UInt8}
    (outside : place < bootPml4 ∨ bootPml4 + 12288 ≤ place) :
    (bootTables bootPml4 mem).setBits place bits =
      bootTables bootPml4 (mem.setBits place bits) := by
  apply @bootTables_comm mem
  · exact fun other low high => Mem.setBits_of_ne (by omega)
  · intro other elsewhere
    by_cases same : other = place
    · subst same
      rw [Mem.setBits_self, Mem.setBits_self, bootTables_apply_of_outside outside]
    · rw [Mem.setBits_of_ne same, Mem.setBits_of_ne same, bootTables_apply_of_outside elsewhere]

namespace TablesInUse

theorem word (inUse : TablesInUse l start code data mem) {addr : Nat}
    (behind : l.bss + 12288 ≤ addr) :
    ∃ before : Mem, mem.load32 addr = before.load32 addr ∧
      before.load32 (l.bss + 28672) = (start.low eax).toNat ∧
      before.load32 (l.bss + 28676) = (start.low ebx).toNat := by
  rcases inUse with ⟨before, magic, info, _, agree⟩
  refine ⟨before, Mem.load_congr fun place low high => ?_, magic, info⟩
  exact (agree.apply (bootNotes_outside (by omega))).trans (bootTables_apply_of_outside (by omega))

theorem push (inUse : TablesInUse l start code data mem) (value : Nat) :
    TablesInUse l start code data (mem.store64 (l.bss + 28664) value) := by
  rcases inUse with ⟨before, magic, info, outside, agree⟩
  refine ⟨before.store64 (l.bss + 28664) value, ?_, ?_, fun place elsewhere => ?_, ?_⟩
  · rw [← magic]
    exact Mem.load_store_disjoint (by omega)
  · rw [← info]
    exact Mem.load_store_disjoint (by omega)
  · exact (Mem.store64_apply_of_outside (by omega)).trans (outside place elsewhere)
  · rw [← bootTables_store (by omega)]
    exact agree.store _ _ _

theorem outside (inUse : TablesInUse l start code data mem) {place : Nat}
    (elsewhere : place < l.bss ∨ l.bss + 28680 ≤ place) :
    mem place = start.mem place ||| segmentNotes l code data place := by
  rcases inUse with ⟨before, _, _, outside, agree⟩
  rw [agree.apply (bootNotes_outside (by omega)), bootTables_apply_of_outside (by omega)]
  exact outside place (by omega)

/-- The first gigabyte is mapped to itself. -/
theorem translate (inUse : TablesInUse l start code data mem) (virt : Nat) :
    hwTranslate mem l.bss virt =
      if virt % 2 ^ 48 < 2 ^ 30 then some (virt % 2 ^ 48) else none := by
  have fits := l.bss_low
  have aligned := l.bss_aligned
  rcases inUse with ⟨before, _, _, _, agree⟩
  rw [hwTranslate_congr (sameEntries_of_agree agree) (by omega),
    hwTranslate_boot aligned (by omega)]

/-- The entries but for the notes in them -/
theorem tables (inUse : TablesInUse l start code data mem) (index : Nat) (inside : index < 1536) :
    mem.load64 (l.bss + 8 * index) ||| pteNotes.toNat =
      (bootTables l.bss start.mem).load64 (l.bss + 8 * index) ||| pteNotes.toNat := by
  have aligned := l.bss_aligned
  rcases inUse with ⟨before, _, _, _, agree⟩
  refine (sameEntries_of_agree agree l.bss index (by omega)).trans ?_
  refine congrArg (fun word => word ||| pteNotes.toNat) (Mem.load64_congr fun place low high => ?_)
  exact bootTables_congr (by omega) (by omega)

/-- A walk leaves the tables in use. -/
theorem hwNote (inUse : TablesInUse l start code data mem) (write : Bool) {virt : Nat}
    (low : virt < 2 ^ 30) : TablesInUse l start code data (hwNote write l.bss virt mem) := by
  have fits := l.bss_low
  have aligned := l.bss_aligned
  rcases inUse with ⟨before, magic, info, outside, agree⟩
  exact ⟨before, magic, info, outside, agree_hwNote aligned (by omega) agree low write⟩

/-- A load of one of the two segments is noted. -/
theorem note (inUse : TablesInUse l start code data mem) {code' data' : Bool} {addr : Nat}
    (low : l.rodata ≤ addr) (high : addr + 8 ≤ l.rodata + 34)
    (notes : ∀ place, segmentNotes l code' data' place =
      segmentNotes l code data place ||| if place = addr + 5 then 1 else 0) :
    TablesInUse l start code' data' (noteSegment addr 1 mem) := by
  have apart := l.apart
  rcases inUse with ⟨before, magic, info, outside, agree⟩
  refine ⟨noteSegment addr 1 before, ?_, ?_, fun place elsewhere => ?_, ?_⟩
  · rw [← magic]
    exact Mem.load_setBits_of_outside (by omega)
  · rw [← info]
    exact Mem.load_setBits_of_outside (by omega)
  · rw [notes, ← UInt8.or_assoc, ← outside place elsewhere]
    by_cases here : place = addr + 5
    · subst here
      rw [if_pos rfl]
      exact Mem.setBits_self
    · rw [if_neg here, UInt8.or_zero]
      exact Mem.setBits_of_ne here
  · unfold noteSegment
    rw [← bootTables_setBits (by omega)]
    exact agree.setBits_both _ _

theorem note_code (inUse : TablesInUse l start code data mem) :
    TablesInUse l start true data (noteSegment (l.rodata + 8) 1 mem) := by
  refine inUse.note (by omega) (by omega) fun place => ?_
  unfold segmentNotes
  by_cases here : place = l.rodata + 13
  · cases code with
    | false => simp [here]
    | true => simp [here]
  · simp [here]

theorem note_data (inUse : TablesInUse l start code data mem) :
    TablesInUse l start code true (noteSegment (l.rodata + 16) 1 mem) := by
  refine inUse.note (by omega) (by omega) fun place => ?_
  unfold segmentNotes
  by_cases here : place = l.rodata + 21
  · cases data with
    | false => simp [here]
    | true => simp [here]
  · simp [here]

/-- Away from the notes `.rodata` is as the loader has left it. -/
theorem load_rodata (inUse : TablesInUse l start code data mem) {addr count : Nat}
    (low : l.rodata ≤ addr) (high : addr + count ≤ l.rodata + 34)
    (clear : ∀ place, addr ≤ place → place < addr + count → segmentNotes l code data place = 0) :
    mem.load addr count = start.mem.load addr count := by
  have apart := l.apart
  refine Mem.load_congr fun place from_ below => ?_
  rw [inUse.outside (by omega), clear place from_ below, UInt8.or_zero]

/-- A segment that was loaded is as a single load leaves it. -/
theorem noted (inUse : TablesInUse l start code data mem) {addr place : Nat}
    (loaded : addr = l.rodata + 8 ∧ code = true ∨ addr = l.rodata + 16 ∧ data = true)
    (low : addr ≤ place) (high : place < addr + 8) :
    mem place = noteSegment addr 1 start.mem place := by
  have apart := l.apart
  have notes : code = true ∧ addr + 5 = l.rodata + 13 ∨ data = true ∧ addr + 5 = l.rodata + 21 :=
    loaded.imp (fun first => ⟨first.2, by omega⟩) fun second => ⟨second.2, by omega⟩
  rw [inUse.outside (by omega)]
  by_cases here : place = addr + 5
  · subst here
    rw [segmentNotes, if_pos notes]
    exact Mem.setBits_self.symm
  · rw [segmentNotes_clear (by omega) (by omega), UInt8.or_zero]
    exact (Mem.setBits_of_ne here).symm

/-- What `lgdt` reads. -/
theorem register (inUse : TablesInUse l start code data mem) (handover : Handover l start) :
    (⟨mem.load (l.rodata + 24) 2, mem.load32 (l.rodata + 24 + 2)⟩ : TableRegister) =
      ⟨23, l.rodata⟩ := by
  have fits := l.rodata_low
  have limit : mem.load (l.rodata + 24) 2 = 23 := by
    rw [← handover.loaded.limit]
    exact inUse.load_rodata (by omega) (by omega) fun place low high =>
      segmentNotes_clear (by omega) (by omega) _ _
  have word : mem.load64 (l.rodata + 26) = l.rodata := by
    refine Eq.trans ?_ handover.loaded.base
    exact inUse.load_rodata (by omega) (by omega) fun place low high =>
      segmentNotes_clear (by omega) (by omega) _ _
  have lower := mem.load32_lt (l.rodata + 26)
  have base : mem.load32 (l.rodata + 26) = l.rodata := by
    rw [Mem.load64_eq_load32] at word
    omega
  rw [limit, base]

/-- The code segment of `boot_gdt64` is loaded for the first time. -/
theorem loadCode_eq (inUse : TablesInUse l start false data mem) (handover : Handover l start) :
    loadCode ⟨23, l.rodata⟩ mem 0x08 =
      .ok (⟨0, 0, 11, 1, 0, 1, 0, 1, 0, 0⟩, noteSegment (l.rodata + 8) 1 mem) := by
  have word : mem.load64 (l.rodata + 8) = 0x00209A0000000000 := by
    refine Eq.trans ?_ handover.loaded.code
    refine inUse.load_rodata (by omega) (by omega) fun place low high => if_neg ?_
    simp only [Bool.false_eq_true, false_and, false_or]
    omega
  have found : lookupSegment ⟨23, l.rodata⟩ mem 0x08 =
      .ok ⟨0, 0, 10, 1, 0, 1, 0, 1, 0, 0⟩ := by
    change Except.ok (readSegment mem (l.rodata + 8)) = _
    unfold readSegment
    rw [word]
    rfl
  unfold loadCode
  rw [found]
  rfl

/-- The data segment, with or without its accessed bit. -/
theorem readSegment_data (inUse : TablesInUse l start code data mem)
    (handover : Handover l start) :
    readSegment mem (l.rodata + 16) = ⟨0, 0, 2 ||| data.toNat, 1, 0, 1, 0, 0, 0, 0⟩ := by
  have apart := l.apart
  have left : readSegment start.mem (l.rodata + 16) = ⟨0, 0, 2, 1, 0, 1, 0, 0, 0, 0⟩ := by
    unfold readSegment
    rw [handover.loaded.data]
    rfl
  cases data with
  | false =>
      refine Eq.trans (readSegment_congr fun place low high => ?_) left
      rw [inUse.outside (by omega), segmentNotes, if_neg, UInt8.or_zero]
      simp only [Bool.false_eq_true, false_and, or_false]
      omega
  | true =>
      rw [readSegment_congr fun place low high => inUse.noted (.inr ⟨rfl, rfl⟩) low high,
        readSegment_note (by decide), left]
      rfl

/-- The data segment of `boot_gdt64` is loaded. -/
theorem loadStack_eq (inUse : TablesInUse l start code data mem) (handover : Handover l start) :
    loadStack ⟨23, l.rodata⟩ mem 0x10 =
      .ok (⟨0, 0, 3, 1, 0, 1, 0, 0, 0, 0⟩, noteSegment (l.rodata + 16) 1 mem) := by
  have found : lookupSegment ⟨23, l.rodata⟩ mem 0x10 =
      .ok ⟨0, 0, 2 ||| data.toNat, 1, 0, 1, 0, 0, 0, 0⟩ :=
    congrArg Except.ok (inUse.readSegment_data handover)
  unfold loadStack
  rw [found]
  cases data with
  | false => rfl
  | true => rfl

/-- A word of `boot_gdt64` whose segment is loaded. -/
theorem load64_noted (inUse : TablesInUse l start true true mem) {addr word : Nat}
    (isSegment : addr = l.rodata + 8 ∨ addr = l.rodata + 16) (left : start.mem.load64 addr = word)
    (clear : word / 2 ^ 40 % 2 = 0) : mem.load64 addr = word + 2 ^ 40 := by
  have noted : mem.load64 addr = (noteSegment addr 1 start.mem).load64 addr :=
    Mem.load64_congr fun place low high => inUse.noted (by simpa using isSegment) low high
  rw [noted]
  exact load64_note left clear

end TablesInUse

/-! ## Paging is on -/

structure Paged (l : Layout) (start : State Sym) (code data : Bool) (pc : Nat) (s : State Sym) :
    Prop where
  running : s.status = .running
  pc : s.pc = pc
  masked : s.flags.interrupt = false
  upwards : s.flags.direction = false
  paging : s.cr0.getLsbD 31 = true
  active : s.efer.getLsbD 10 = true
  space : s.cr3 = l.image.addr .bootPml4
  mem : TablesInUse l start code data s.mem

namespace Paged

variable {pc : Nat}

theorem root_eq (paged : Paged l start code data pc s) : s.root = l.bss := by
  have fits := l.bss_low
  have aligned := l.bss_aligned
  unfold State.root
  rw [paged.space, bss_toNat l .bootPml4 0 rfl (by decide)]
  change l.bss / 4096 * 4096 = l.bss
  omega

/-- Everything below the first gigabyte can be reached. -/
theorem ready (paged : Paged l start code data pc s) {accesses : List Access}
    (low : ∀ access ∈ accesses, access.addr + access.count ≤ 2 ^ 30) :
    s.Ready (processor identifies cpuid) accesses := by
  refine ready_of_mapped (fun virt below => ?_) low
  change hwTranslate s.mem s.root virt = some virt
  rw [paged.root_eq, paged.mem.translate, if_pos (by omega)]
  exact congrArg some (by omega)

/-- The walks for it are noted, and nothing else changes. -/
theorem touch (paged : Paged l start code data pc s) {accesses : List Access}
    (low : ∀ access ∈ accesses, access.addr + access.count ≤ 2 ^ 30) :
    Paged l start code data pc (s.touch (processor identifies cpuid) accesses) where
  running := paged.running
  pc := paged.pc
  masked := paged.masked
  upwards := paged.upwards
  paging := paged.paging
  active := paged.active
  space := paged.space
  mem := by
    refine touch_keeps (fun mem write addr below inUse => ?_) low paged.mem
    change TablesInUse l start code data (Paging.hwNote write s.root addr mem)
    rw [paged.root_eq]
    exact inUse.hwNote write below

end Paged

/-- Paging is turned on. -/
theorem leads_paged (handover : Handover l start) (built : Built l start 54 s)
    (space : s.cr3 = l.image.addr .bootPml4) (pae : s.cr4.getLsbD 5 = true)
    (lme : s.efer.getLsbD 8 = true) :
    Leads (processor identifies cpuid) l.image entry64 s fun s' =>
      Paged l start false false 57 s' ∧ s'.cs.long = 0 := by
  have flat := built.flat handover
  have long : s.cs.long = 0 := by
    rw [built.cs]
    exact handover.narrow
  have pg : (s.cr0 ||| (BitVec.twoPow 32 31 ||| BitVec.twoPow 32 0)).getLsbD 31 = true := by
    rw [BitVec.or_comm (BitVec.twoPow 32 31), ← BitVec.or_assoc]
    exact getLsbD_or_twoPow _ (by decide)
  have pe : (s.cr0 ||| (BitVec.twoPow 32 31 ||| BitVec.twoPow 32 0)).getLsbD 0 = true := by
    rw [← BitVec.or_assoc]
    exact getLsbD_or_twoPow _ (by decide)
  have active := getLsbD_or_twoPow s.efer (show 10 < 64 by decide)
  have notLong : s.cs.long ≠ 1 := by
    rw [long]
    decide
  rcases built with ⟨running, here, masked, upwards, cr0Eq, legacy, csEq, mem⟩
  have inUse := mem.inUse
  clear mem
  rcases s with ⟨lows, highs, ⟨carry, zero, interrupt, direction, ident⟩, cr0, cr3, cr4, efer,
    gdtr, cs, data, memory, count, status⟩
  dsimp only at *
  refine Leads.flat running here rfl legacy rfl flat rfl ?_
  refine Leads.flat running rfl rfl legacy rfl flat rfl ?_
  refine Leads.flat running rfl rfl legacy rfl flat
    (writeCr0_enables pg pe flat lme pae notLong) ?_
  exact Leads.done ⟨⟨running, rfl, masked, upwards, pg, active, space, inUse⟩, long⟩

/-- 16-bit and 32-bit segments hold no 64-bit code. -/
theorem narrow_of_legacy (long : s.cs.long = 0) : s.wide = false := by
  unfold State.wide
  rw [long]
  exact Bool.and_false _

/-- Behind the fetch, only the accesses of the instruction itself matter. -/
theorem walks_low {i : Instr Sym Label}
    (low : ∀ access ∈ i.accesses l.image s, access.addr + access.count ≤ 2 ^ 30) :
    ∀ access ∈ i.walks l.image s, access.addr + access.count ≤ 2 ^ 30 :=
  List.forall_mem_cons.mpr ⟨l.text_low s.pc, low⟩

theorem leads_gdt (handover : Handover l start) (paged : Paged l start false false 57 s)
    (long : s.cs.long = 0) :
    Leads (processor identifies cpuid) l.image entry64 s fun s' =>
      Paged l start false false 58 s' ∧ s'.cs.long = 0 ∧ s'.gdtr = ⟨23, l.rodata⟩ := by
  have pointer : (l.image.addr .bootGdt64Ptr).toNat = l.rodata + 24 :=
    symbol_toNat l .bootGdt64Ptr (by have := l.rodata_low; change l.rodata + 24 < _; omega)
  have low := @walks_low l s (.lgdt .bootGdt64Ptr) (by
    intro access listed
    have table := l.rodata_low
    rw [List.mem_singleton.mp listed]
    change (l.image.addr .bootGdt64Ptr).toNat + 6 ≤ _
    omega)
  have touched := @Paged.touch l identifies cpuid start s false false 57 paged _ low
  have register := touched.mem.register handover
  rw [← pointer] at register
  refine Leads.code32 paged.running paged.pc rfl (narrow_of_legacy long) rfl (paged.ready low)
    rfl ?_
  rcases touched with ⟨running, here, masked, upwards, paging, active, space, mem⟩
  exact Leads.done ⟨⟨running, rfl, masked, upwards, paging, active, space, mem⟩, long, register⟩

structure InLong (l : Layout) (start : State Sym) (data : Bool) (pc : Nat) (s : State Sym) :
    Prop where
  paged : Paged l start true data pc s
  wide : s.wide = true
  gdtr : s.gdtr = ⟨23, l.rodata⟩

theorem leads_jumped (handover : Handover l start) (paged : Paged l start false false 58 s)
    (long : s.cs.long = 0) (gdtr : s.gdtr = ⟨23, l.rodata⟩) :
    Leads (processor identifies cpuid) l.image entry64 s (InLong l start false 64) := by
  have low := @walks_low l s (.farJump 0x08 .longModeStart) (by
    intro access listed
    have table := l.rodata_low
    rw [List.mem_singleton.mp listed]
    change s.gdtr.base + 8 + 8 ≤ _
    rw [gdtr]
    change l.rodata + 8 + 8 ≤ _
    omega)
  have touched := @Paged.touch l identifies cpuid start s false false 58 paged _ low
  have found := touched.mem.loadCode_eq handover
  rw [← gdtr] at found
  refine Leads.code32 paged.running paged.pc rfl (narrow_of_legacy long) rfl (paged.ready low)
    (effect_farJump paged.active found) ?_
  have noted := touched.mem.note_code
  rcases touched with ⟨running, here, masked, upwards, paging, active, space, mem⟩
  refine Leads.done ⟨⟨running, ?_, masked, upwards, paging, active, space, noted⟩, ?_, gdtr⟩
  · exact found_longModeStart
  · change (s.efer.getLsbD 10 && true) = true
    rw [paged.active]
    rfl

/-- The data segment is loaded into a register. -/
theorem leads_segment {pc : Nat} {r : SegReg} (handover : Handover l start)
    (long : InLong l start data pc s) (line : entry64[pc]? = some (.code64 (.movSegment eax r)))
    (selector : (s.low eax).setWidth 16 = (0x10 : BitVec 16)) :
    Leads (processor identifies cpuid) l.image entry64 s fun s' => InLong l start true (pc + 1) s' ∧
      (s'.low eax).setWidth 16 = (0x10 : BitVec 16) ∧
        s'.data = Function.update s.data r 0x10 := by
  have low := @walks_low l s (.movSegment eax r) (by
    intro access listed
    have table := l.rodata_low
    have value : (s.low eax).toNat % 2 ^ 16 = 16 := congrArg BitVec.toNat selector
    rw [List.mem_singleton.mp listed, value]
    change s.gdtr.base + 16 + 8 ≤ _
    rw [long.gdtr]
    change l.rodata + 16 + 8 ≤ _
    omega)
  have touched := @Paged.touch l identifies cpuid start s true data pc long.paged _ low
  have found := touched.mem.loadStack_eq handover
  rw [← long.gdtr] at found
  have noted := touched.mem.note_data
  refine Leads.code64 long.paged.running long.paged.pc line long.wide rfl (long.paged.ready low)
    (effect_movSegment selector found) ?_
  rcases touched with ⟨running, here, masked, upwards, paging, active, space, mem⟩
  exact Leads.done ⟨⟨⟨running, rfl, masked, upwards, paging, active, space, noted⟩, long.wide,
    long.gdtr⟩, selector, rfl⟩

/-- A step of 64-bit code that loads no segment. -/
theorem InLong.step {pc : Nat} {i : Instr Sym Label} {s' : State Sym} {goal : State Sym → Prop}
    (long : InLong l start data pc s) (line : entry64[pc]? = some (.code64 i))
    (fits : i.fits true = true)
    (low : ∀ access ∈ i.accesses l.image s, access.addr + access.count ≤ 2 ^ 30)
    (done : i.effect (processor identifies cpuid) l.image entry64 true
      { s.touch (processor identifies cpuid) (i.walks l.image s) with pc := pc + 1 } = .ok s')
    (rest : InLong l start data pc (s.touch (processor identifies cpuid) (i.walks l.image s)) →
      Leads (processor identifies cpuid) l.image entry64 s' goal) :
    Leads (processor identifies cpuid) l.image entry64 s goal := by
  have ready := walks_low low
  exact Leads.code64 long.paged.running long.paged.pc line long.wide fits (long.paged.ready ready)
    done (rest ⟨long.paged.touch ready, long.wide, long.gdtr⟩)

theorem leads_segments (handover : Handover l start) (long : InLong l start false 64 s) :
    Leads (processor identifies cpuid) l.image entry64 s fun s' => InLong l start true 71 s' ∧
      ∀ r, s'.data r = 0x10 := by
  have first : Leads (processor identifies cpuid) l.image entry64 s fun s' =>
      InLong l start false 66 s' ∧ (s'.low eax).setWidth 16 = (0x10 : BitVec 16) := by
    have selector : ((s.low eax).extractLsb' 16 16 ++ (0x10 : BitVec 16)).setWidth 16 =
        (0x10 : BitVec 16) := by
      apply BitVec.eq_of_getLsbD_eq
      intro i inside
      rw [BitVec.getLsbD_setWidth, BitVec.getLsbD_append, if_pos inside, decide_eq_true inside,
        Bool.true_and]
    refine Leads.label long.paged.running long.paged.pc rfl ?_
    have next : InLong l start false 65 { s with pc := 65 } := by
      rcases long with ⟨⟨running, here, masked, upwards, paging, active, space, mem⟩, wide, gdtr⟩
      exact ⟨⟨running, rfl, masked, upwards, paging, active, space, mem⟩, wide, gdtr⟩
    refine next.step rfl rfl (List.forall_mem_nil _) rfl fun touched => ?_
    rcases touched with ⟨⟨running, here, masked, upwards, paging, active, space, mem⟩, wide, gdtr⟩
    exact Leads.done ⟨⟨⟨running, rfl, masked, upwards, paging, active, space, mem⟩, wide, gdtr⟩,
      selector⟩
  refine first.trans fun s1 ⟨long1, eax1⟩ => ?_
  refine (leads_segment handover long1 rfl eax1).trans fun s2 ⟨long2, eax2, data2⟩ => ?_
  refine (leads_segment handover long2 rfl eax2).trans fun s3 ⟨long3, eax3, data3⟩ => ?_
  refine (leads_segment handover long3 rfl eax3).trans fun s4 ⟨long4, eax4, data4⟩ => ?_
  refine (leads_segment handover long4 rfl eax4).trans fun s5 ⟨long5, eax5, data5⟩ => ?_
  refine (leads_segment handover long5 rfl eax5).mono fun s6 ⟨long6, _, data6⟩ => ⟨long6, ?_⟩
  intro r
  rw [data6, data5, data4, data3, data2]
  cases r with
  | ds => rfl
  | es => rfl
  | fs => rfl
  | gs => rfl
  | ss => rfl

/-! ## The call -/

/-- `movq $stack_top, %rsp` -/
theorem leads_stack (long : InLong l start true 71 s) :
    Leads (processor identifies cpuid) l.image entry64 s fun s' => InLong l start true 72 s' ∧
      s'.rsp.toNat = l.bss + 28672 ∧ s'.data = s.data := by
  have fits := l.bss_low
  have top : (l.image.addr .stackTop).toNat = l.bss + 28672 :=
    bss_toNat l .stackTop 28672 rfl (by decide)
  have positive : (l.image.addr .stackTop).msb = false := by
    rw [BitVec.msb_eq_false_iff_two_mul_lt, top]
    omega
  have rsp : ((l.image.addr .stackTop).signExtend 64).toNat = l.bss + 28672 := by
    rw [BitVec.signExtend_eq_setWidth_of_msb_false positive, BitVec.toNat_setWidth, top]
    exact Nat.mod_eq_of_lt (by omega)
  have rsp' : ∀ t : State Sym, (t.setWide esp ((l.image.addr .stackTop).signExtend 64)).rsp.toNat =
      l.bss + 28672 := by
    intro t
    rw [rsp_setWide, rsp]
  refine long.step rfl rfl (List.forall_mem_nil _) rfl fun touched => ?_
  rcases touched with ⟨⟨running, here, masked, upwards, paging, active, space, mem⟩, wide, gdtr⟩
  exact Leads.done ⟨⟨⟨running, rfl, masked, upwards, paging, active, space, mem⟩, wide, gdtr⟩,
    rsp' _, rfl⟩

theorem leads_argument {pc : Nat} {dst : Reg} {name : Sym} {value : BitVec 32}
    (long : InLong l start true pc s)
    (line : entry64[pc]? = some (.code64 (.load (.abs name) dst)))
    (low : (l.image.addr name).toNat + 4 ≤ 2 ^ 30) (other : esp ≠ dst)
    (word : ∀ mem, TablesInUse l start true true mem →
      BitVec.ofNat 32 (mem.load32 (l.image.addr name).toNat) = value) :
    Leads (processor identifies cpuid) l.image entry64 s fun s' => InLong l start true (pc + 1) s' ∧
      s'.rsp = s.rsp ∧ s'.data = s.data ∧ s'.high = Function.update s.high dst 0 ∧
      s'.low = Function.update s.low dst value := by
  have rsp : ∀ (t : State Sym) (value : BitVec 32), (t.set true dst value).rsp = t.rsp := by
    intro t value
    unfold State.rsp State.set
    dsimp only
    rw [if_pos rfl, Function.update_of_ne other, Function.update_of_ne other]
  refine long.step line rfl ?_ rfl fun touched => ?_
  · intro access listed
    rw [List.mem_singleton.mp listed]
    exact low
  have loaded := word _ touched.paged.mem
  rcases touched with ⟨⟨running, here, masked, upwards, paging, active, space, mem⟩, wide, gdtr⟩
  refine Leads.done ⟨⟨⟨running, rfl, masked, upwards, paging, active, space, mem⟩, wide, gdtr⟩,
    rsp _ _, rfl, rfl, ?_⟩
  exact congrArg (Function.update s.low dst) loaded

/-- `call kernel_main` -/
theorem leads_called (handover : Handover l start) (long : InLong l start true 74 s)
    (rsp : s.rsp.toNat = l.bss + 28672) (data : ∀ r, s.data r = 0x10)
    (mbiAddr : s.low edi = start.low ebx ∧ s.high edi = 0)
    (magic : s.low esi = start.low eax ∧ s.high esi = 0) :
    Leads (processor identifies cpuid) l.image entry64 s (Entered l start) := by
  have fits := l.bss_low
  have apart := l.apart
  have place : (s.rsp - 8).toNat = l.bss + 28664 := by
    have eight : (8 : BitVec 64).toNat = 8 := rfl
    rw [BitVec.toNat_sub, rsp, eight]
    omega
  have stack : ∀ t : State Sym, (t.setWide esp (s.rsp - 8)).rsp.toNat = l.bss + 28664 := by
    intro t
    rw [rsp_setWide, place]
  have base : s.cr3.toNat = l.bss := by
    rw [long.paged.space]
    exact bss_toNat l .bootPml4 0 rfl (by decide)
  refine long.step rfl rfl ?_ rfl fun touched => ?_
  · intro access listed
    rw [List.mem_singleton.mp listed]
    change (s.rsp - 8).toNat + 8 ≤ _
    omega
  have inUse := touched.paged.mem.push (l.text 75)
  rw [← place] at inUse
  have returnAddr := l.text_low 75
  apply Leads.done
  constructor
  case called => rfl
  case wide => exact touched.wide
  case paging => exact touched.paged.paging
  case masked => exact touched.paged.masked
  case upwards => exact touched.paged.upwards
  case data => exact data
  case mbiAddr => exact mbiAddr
  case magic => exact magic
  case stack =>
    exact stack (s.touch (processor identifies cpuid)
      (Instr.walks l.image s (.call .kernelMain : Instr Sym Label)))
  case returnAddr =>
    rw [found_loop]
    change Mem.load64 (Mem.store64 _ (s.rsp - 8).toNat (l.text 75)) (l.bss + 28664) = l.text 75
    rw [place, Mem.load64_store64_same]
    exact wrap64_of_lt (by omega)
  case space => exact base
  case mapped => exact inUse.translate
  case tables => exact inUse.tables
  case codeSegment => exact inUse.load64_noted (.inl rfl) handover.loaded.code (by decide)
  case dataSegment => exact inUse.load64_noted (.inr rfl) handover.loaded.data (by decide)
  case outside =>
    intro other elsewhere code data
    refine (inUse.outside elsewhere).trans ?_
    rw [segmentNotes_clear code data, UInt8.or_zero]

/-- From `long_mode_start` to the call -/
theorem leads_entered (handover : Handover l start) (long : InLong l start false 64 s) :
    Leads (processor identifies cpuid) l.image entry64 s (Entered l start) := by
  have fits := l.bss_low
  have infoAddr : (l.image.addr .multibootInfo).toNat = l.bss + 28676 :=
    bss_toNat l .multibootInfo 28676 rfl (by decide)
  have magicAddr : (l.image.addr .multibootMagic).toNat = l.bss + 28672 :=
    bss_toNat l .multibootMagic 28672 rfl (by decide)
  have info : ∀ mem, TablesInUse l start true true mem →
      BitVec.ofNat 32 (mem.load32 (l.image.addr .multibootInfo).toNat) = start.low ebx := by
    intro mem inUse
    rcases inUse.word (show l.bss + 12288 ≤ l.bss + 28676 by omega) with ⟨before, word, _, info⟩
    rw [infoAddr, word, info, BitVec.ofNat_toNat, BitVec.setWidth_eq]
  have magic : ∀ mem, TablesInUse l start true true mem →
      BitVec.ofNat 32 (mem.load32 (l.image.addr .multibootMagic).toNat) = start.low eax := by
    intro mem inUse
    rcases inUse.word (show l.bss + 12288 ≤ l.bss + 28672 by omega) with ⟨before, word, magic, _⟩
    rw [magicAddr, word, magic, BitVec.ofNat_toNat, BitVec.setWidth_eq]
  refine (leads_segments handover long).trans fun s1 ⟨long1, data1⟩ => ?_
  refine (leads_stack long1).trans fun s2 ⟨long2, rsp2, data2⟩ => ?_
  refine (leads_argument long2 rfl (by omega) (by decide) info).trans
    fun s3 ⟨long3, rsp3, data3, high3, low3⟩ => ?_
  refine (leads_argument long3 rfl (by omega) (by decide) magic).trans
    fun s4 ⟨long4, rsp4, data4, high4, low4⟩ => ?_
  apply leads_called handover long4
  · rw [rsp4, rsp3, rsp2]
  · intro r
    rw [data4, data3, data2, data1]
  · constructor
    · rw [low4, Function.update_of_ne (by decide), low3, Function.update_self]
    · rw [high4, Function.update_of_ne (by decide), high3, Function.update_self]
  · constructor
    · rw [low4, Function.update_self]
    · rw [high4, Function.update_self]

end Phases

/-- Wherever the linker has put the sections and whatever the loader has left in the registers
and in the memory: a processor with long mode gets to `kernel_main`, and any other one stops.
The run is the listing instruction by instruction, with the checks of the processor and the bits
that it sets in its tables. -/
theorem start_leads {l : Layout} {identifies : Bool} {cpuid : BitVec 32 → Leaf}
    {start : State Sym} (handover : Handover l start) :
    ((processor identifies cpuid).LongMode →
      Leads (processor identifies cpuid) l.image entry64 start (Entered l start)) ∧
    (¬ (processor identifies cpuid).LongMode →
      Leads (processor identifies cpuid) l.image entry64 start (Hung l start)) := by
  have asked : Leads (processor identifies cpuid) l.image entry64 start
      (Early l start (if (processor identifies cpuid).LongMode then 26 else 59)) :=
    (leads_saved handover).trans fun s1 early1 => leads_asked handover early1
  constructor
  case left =>
    intro longMode
    rw [if_pos longMode] at asked
    refine asked.trans fun s2 early2 => ?_
    refine (leads_linked handover early2).trans fun s3 filling => ?_
    refine (Leads.loop (fun n inside s => leads_round handover inside) filling).trans
      fun s4 filled => ?_
    refine (leads_extended handover (filled.built handover)).trans
      fun s5 ⟨built5, space5, pae5⟩ => ?_
    refine (leads_enabled handover built5 longMode space5 pae5).trans
      fun s6 ⟨built6, space6, pae6, lme6⟩ => ?_
    refine (leads_paged handover built6 space6 pae6 lme6).trans fun s7 ⟨paged7, long7⟩ => ?_
    refine (leads_gdt handover paged7 long7).trans fun s8 ⟨paged8, long8, gdtr8⟩ => ?_
    refine (leads_jumped handover paged8 long8 gdtr8).trans fun s9 long9 => ?_
    exact leads_entered handover long9
  case right =>
    intro legacy
    rw [if_neg legacy] at asked
    exact asked.trans fun s2 early2 => leads_hung handover early2

/-! ## A small image -/

def smallLayout : Layout where
  text pc := 0x100000 + 8 * min pc 80
  rodata := 0x102000
  bss := 0x103000
  multibootHeaderStart := 0xFF000
  kernelMain := 0x101000
  text_low pc := by omega
  rodata_low := by decide
  bss_low := by decide
  bss_aligned := by decide
  apart := by decide

def smallStart : State Sym where
  low r := if r = eax then 0x36D76289 else if r = ebx then 0x9000 else 0
  high := fun _ => 0
  flags := ⟨false, false, false, false, false⟩
  cr0 := 0x11
  cr3 := 0
  cr4 := 0
  efer := 0
  gdtr := ⟨0, 0⟩
  cs := ⟨0, 0xFFFFF, 11, 1, 0, 1, 0, 0, 1, 1⟩
  data := fun _ => 0x18
  mem := ((Mem.store64 (Mem.store64 (fun _ => 0) 0x102008 0x00209A0000000000) 0x102010
    0x0000920000000000).store 0x102018 2 23).store64 0x10201A 0x102000
  pc := 0
  status := .running

theorem smallStart_handover : Handover smallLayout smallStart where
  running := rfl
  pc := rfl
  flat := by decide
  legacy := by decide
  narrow := rfl
  loaded := ⟨by decide +kernel, by decide +kernel, by decide +kernel, by decide +kernel,
    by decide +kernel⟩

/-- What a processor with long mode answers. -/
def smallLeaf (function : BitVec 32) : Leaf :=
  if function = 0x80000000 then ⟨0x80000008, 0, 0, 0⟩ else ⟨0, 0, 0, BitVec.twoPow 32 29⟩

/-- One processor has long mode, and the other one has no `cpuid`. -/
theorem start_leads_small :
    Leads (processor true smallLeaf) smallLayout.image entry64 smallStart
        (Entered smallLayout smallStart) ∧
      Leads (processor false smallLeaf) smallLayout.image entry64 smallStart
        (Hung smallLayout smallStart) :=
  ⟨(start_leads smallStart_handover).1 (by decide),
    (start_leads smallStart_handover).2 (by decide)⟩

end Entry
end Boot
end AuraKernel
