import AuraKernel.Machine.Startup
import AuraKernel.Paging.Accessed

namespace AuraKernel
namespace Boot

open Machine Paging

/-!
# The entry of the kernel

`_start` in `boot/entry64.S` finds the processor in 32-bit mode, as a Multiboot2
loader leaves it.  It looks for long mode, builds the tables of the first gigabyte,
turns on paging and long mode and calls `kernel_main`.  The module has the listing,
what is to be shown of it, and the way to the instruction that turns on paging.
-/

namespace Entry

open Startup

inductive Sym where
  | multibootHeaderStart
  | multibootMagic
  | multibootInfo
  | stackTop
  | bootPml4
  | bootPdpt
  | bootPd
  | bootGdt64Ptr
  | kernelMain
deriving DecidableEq

inductive Label where
  | fillPd
  | noLongMode
  | hang
  | longModeStart
  | loop
deriving DecidableEq

/-- `_start` up to the loop -/
def startCode : List (Instr Sym Label) :=
  [.cli, .cld,
    .mov (.sym .multibootHeaderStart) edx,
    .store (.reg eax) (.abs .multibootMagic),
    .store (.reg ebx) (.abs .multibootInfo),
    .mov (.sym .stackTop) esp,
    -- Check if CPUID is supported
    .pushf, .pop eax, .mov (.reg eax) ecx, .xor (.imm (BitVec.twoPow 32 21)) eax,
    .push eax, .popf, .pushf, .pop eax, .push ecx, .popf,
    .cmp (.reg ecx) eax, .jump .equal .noLongMode,
    -- Check for extended processor info
    .mov (.imm 0x80000000) eax, .cpuid, .cmp (.imm 0x80000001) eax, .jump .below .noLongMode,
    -- Check for long mode support
    .mov (.imm 0x80000001) eax, .cpuid, .test (.imm (BitVec.twoPow 32 29)) edx,
    .jump .equal .noLongMode,
    -- Clear page tables
    .mov (.sym .bootPml4) edi, .mov (.imm 0) eax, .mov (.imm 3072) ecx, .repStos,
    -- Link PML4[0] and PDPT[0]
    .mov (.sym .bootPdpt) eax, .or (.imm 0x03) eax, .store (.reg eax) (.abs .bootPml4),
    .mov (.sym .bootPd) eax, .or (.imm 0x03) eax, .store (.reg eax) (.abs .bootPdpt),
    -- Fill PD
    .mov (.imm 0) ecx, .mov (.imm 0x83) eax]

/-- `.fill_pd` -/
def fillCode : List (Instr Sym Label) :=
  [.store (.reg eax) (.scaled .bootPd 0 ecx), .store (.imm 0) (.scaled .bootPd 4 ecx),
    .add (.imm 0x200000) eax, .inc ecx, .cmp (.imm 512) ecx, .jump .notEqual .fillPd]

/-- From the loop to the far jump -/
def enableCode : List (Instr Sym Label) :=
  -- Load PML4 address into CR3
  [.mov (.sym .bootPml4) eax, .writeControl eax .cr3,
    -- Enable PAE in CR4
    .readControl .cr4 eax, .or (.imm (BitVec.twoPow 32 5)) eax, .writeControl eax .cr4,
    -- Enable Long Mode in EFER MSR
    .mov (.imm 0xC0000080) ecx, .rdmsr, .or (.imm (BitVec.twoPow 32 8)) eax, .wrmsr,
    -- Enable Paging and Protected Mode in CR0
    .readControl .cr0 eax, .or (.imm (BitVec.twoPow 32 31 ||| BitVec.twoPow 32 0)) eax,
    .writeControl eax .cr0,
    .lgdt .bootGdt64Ptr, .farJump 0x08 .longModeStart]

/-- `long_mode_start` -/
def longModeCode : List (Instr Sym Label) :=
  [.movWord 0x10 eax, .movSegment eax .ds, .movSegment eax .es, .movSegment eax .fs,
    .movSegment eax .gs, .movSegment eax .ss,
    .movQuad .stackTop esp,
    -- Pass Multiboot arguments to kernel_main
    .load (.abs .multibootInfo) edi, .load (.abs .multibootMagic) esi,
    .call .kernelMain]

/-- `entry64.S` -/
def entry64 : List (Line Sym Label) :=
  startCode.map .code32 ++ [.label .fillPd] ++ fillCode.map .code32 ++ enableCode.map .code32 ++
    [.label .noLongMode, .code32 .cli, .label .hang, .code32 .hlt,
      .code32 (.jump .always .hang), .label .longModeStart] ++ longModeCode.map .code64 ++
    [.label .loop, .code64 .cli, .code64 .hlt, .code64 (.jump .always .loop)]

/-- Where the linker has put the sections, with what the loader has left in `.rodata`. -/
structure Layout where
  text : Nat → Nat
  rodata : Nat
  bss : Nat
  multibootHeaderStart : Nat
  kernelMain : Nat
  text_low : ∀ pc, text pc + 15 ≤ 2 ^ 30
  rodata_low : rodata + 34 ≤ 2 ^ 30
  bss_low : bss + 28680 ≤ 2 ^ 30
  bss_aligned : bss % 4096 = 0
  apart : rodata + 34 ≤ bss ∨ bss + 28680 ≤ rodata

/-- The tables and the stack follow each other, and the two variables come last. -/
def Layout.symbol (l : Layout) : Sym → Nat
  | .multibootHeaderStart => l.multibootHeaderStart
  | .bootPml4 => l.bss
  | .bootPdpt => l.bss + 4096
  | .bootPd => l.bss + 8192
  | .stackTop => l.bss + 28672
  | .multibootMagic => l.bss + 28672
  | .multibootInfo => l.bss + 28676
  | .bootGdt64Ptr => l.rodata + 24
  | .kernelMain => l.kernelMain

def Layout.image (l : Layout) : Image Sym where
  addr name := BitVec.ofNat 32 (l.symbol name)
  code := l.text

/-- `boot_gdt64` and `boot_gdt64_ptr` -/
structure Loaded (l : Layout) (mem : Mem) : Prop where
  null : mem.load64 l.rodata = 0
  code : mem.load64 (l.rodata + 8) = 0x00209A0000000000
  data : mem.load64 (l.rodata + 16) = 0x0000920000000000
  limit : mem.load (l.rodata + 24) 2 = 23
  base : mem.load64 (l.rodata + 26) = l.rodata

/-- The state in which the loader calls `_start`. -/
structure Handover (l : Layout) (start : State Sym) : Prop where
  running : start.status = .running
  pc : start.pc = 0
  flat : start.paging = false
  legacy : start.longActive = false
  narrow : start.cs.long = 0
  loaded : Loaded l start.mem

/-- The processor, with or without `cpuid`. -/
def processor (identifies : Bool) (cpuid : BitVec 32 → Leaf) : Processor where
  identifies := identifies
  cpuid := cpuid
  walk := hwTranslate
  note := hwNote

/-- `kernel_main` is called in 64-bit mode, with the arguments and the address space that the
rest of the kernel counts on.  The processor has noted its use of the tables, in their accessed
and dirty bits, and of the two segments of `boot_gdt64`, in their accessed bits; nothing else
outside of `.bss` has changed. -/
structure Entered (l : Layout) (start s : State Sym) : Prop where
  called : s.status = .called .kernelMain
  wide : s.wide = true
  paging : s.paging = true
  masked : s.flags.interrupt = false
  upwards : s.flags.direction = false
  data : ∀ r, s.data r = 0x10
  mbiAddr : s.low edi = start.low ebx ∧ s.high edi = 0
  magic : s.low esi = start.low eax ∧ s.high esi = 0
  stack : s.rsp.toNat = l.bss + 28664
  returnAddr : s.mem.load64 (l.bss + 28664) = l.text (entry64.findIdx (Line.isLabel .loop))
  space : s.cr3.toNat = l.bss
  mapped : ∀ virt, hwTranslate s.mem l.bss virt =
    if virt % 2 ^ 48 < 2 ^ 30 then some (virt % 2 ^ 48) else none
  tables : ∀ index, index < 1536 →
    s.mem.load64 (l.bss + 8 * index) ||| pteNotes.toNat =
      (bootTables l.bss start.mem).load64 (l.bss + 8 * index) ||| pteNotes.toNat
  codeSegment : s.mem.load64 (l.rodata + 8) = 0x00209B0000000000
  dataSegment : s.mem.load64 (l.rodata + 16) = 0x0000930000000000
  outside : ∀ place, place < l.bss ∨ l.bss + 28680 ≤ place → place ≠ l.rodata + 13 →
    place ≠ l.rodata + 21 → s.mem place = start.mem place

/-- The processor stands still, and nothing but the stack and the two variables has changed. -/
structure Hung (l : Layout) (start s : State Sym) : Prop where
  halted : s.status = .halted
  masked : s.flags.interrupt = false
  flat : s.cr0 = start.cr0 ∧ s.cr3 = start.cr3 ∧ s.cr4 = start.cr4 ∧ s.efer = start.efer
  outside : ∀ place, place < l.bss + 12288 ∨ l.bss + 28680 ≤ place →
    s.mem place = start.mem place

/-! ## The listing -/

theorem found_fillPd : entry64.findIdx (Line.isLabel .fillPd) = 38 := by decide
theorem found_noLongMode : entry64.findIdx (Line.isLabel .noLongMode) = 59 := by decide
theorem found_longModeStart : entry64.findIdx (Line.isLabel .longModeStart) = 64 := by decide
theorem found_loop : entry64.findIdx (Line.isLabel .loop) = 75 := by decide

/-! ## The registers of the start -/

/-- Before paging is turned on, at some line of the listing. -/
structure Early (l : Layout) (start : State Sym) (pc : Nat) (s : State Sym) : Prop where
  running : s.status = .running
  pc : s.pc = pc
  masked : s.flags.interrupt = false
  upwards : s.flags.direction = false
  cr0 : s.cr0 = start.cr0
  cr3 : s.cr3 = start.cr3
  cr4 : s.cr4 = start.cr4
  efer : s.efer = start.efer
  cs : s.cs = start.cs
  stack : s.low esp = l.image.addr .stackTop
  magic : s.mem.load32 (l.bss + 28672) = (start.low eax).toNat
  info : s.mem.load32 (l.bss + 28676) = (start.low ebx).toNat
  outside : ∀ place, place < l.bss + 12288 ∨ l.bss + 28680 ≤ place →
    s.mem place = start.mem place

section Phases

variable {l : Layout} {identifies : Bool} {cpuid : BitVec 32 → Leaf} {start s : State Sym}

theorem symbol_toNat (l : Layout) (name : Sym) (low : l.symbol name < 2 ^ 32) :
    (l.image.addr name).toNat = l.symbol name := by
  change l.symbol name % 2 ^ 32 = _
  exact Nat.mod_eq_of_lt low

theorem bss_toNat (l : Layout) (name : Sym) (offset : Nat) (place : l.symbol name = l.bss + offset)
    (inside : offset < 28680) : (l.image.addr name).toNat = l.bss + offset := by
  have low := l.bss_low
  rw [← place]
  exact symbol_toNat l name (by omega)

/-- Up to the first `pushfl` -/
theorem leads_saved (handover : Handover l start) :
    Leads (processor identifies cpuid) l.image entry64 start (Early l start 6) := by
  have running := handover.running
  have flat : start.cr0.getLsbD 31 = false := handover.flat
  have legacy : start.efer.getLsbD 10 = false := handover.legacy
  refine Leads.flat running handover.pc rfl legacy rfl flat rfl ?_
  iterate 5 refine Leads.flat running rfl rfl legacy rfl flat rfl ?_
  have magicAddr : (l.image.addr .multibootMagic).toNat = l.bss + 28672 :=
    bss_toNat l .multibootMagic 28672 rfl (by decide)
  have infoAddr : (l.image.addr .multibootInfo).toNat = l.bss + 28676 :=
    bss_toNat l .multibootInfo 28676 rfl (by decide)
  apply Leads.done
  constructor
  case running => exact running
  case pc => rfl
  case masked => rfl
  case upwards => rfl
  case cr0 => rfl
  case cr3 => rfl
  case cr4 => rfl
  case efer => rfl
  case cs => rfl
  case stack => rfl
  case magic =>
    change Mem.load32 (Mem.store32 (Mem.store32 start.mem (l.image.addr .multibootMagic).toNat
      (start.low eax).toNat) (l.image.addr .multibootInfo).toNat (start.low ebx).toNat) _ = _
    rw [magicAddr, infoAddr, Mem.load32_store32_disjoint (by omega), Mem.load32_store32_same]
    exact wrap32_of_lt (start.low eax).isLt
  case info =>
    change Mem.load32 (Mem.store32 (Mem.store32 start.mem (l.image.addr .multibootMagic).toNat
      (start.low eax).toNat) (l.image.addr .multibootInfo).toNat (start.low ebx).toNat) _ = _
    rw [infoAddr, Mem.load32_store32_same]
    exact wrap32_of_lt (start.low ebx).isLt
  case outside =>
    intro place elsewhere
    change Mem.store32 (Mem.store32 start.mem (l.image.addr .multibootMagic).toNat
      (start.low eax).toNat) (l.image.addr .multibootInfo).toNat (start.low ebx).toNat place = _
    rw [magicAddr, infoAddr, Mem.store32_apply_of_outside (by omega),
      Mem.store32_apply_of_outside (by omega)]

/-- The state stays early as long as only general registers and flags change. -/
theorem Early.next {pc pc' : Nat} (early : Early l start pc s) {s' : State Sym}
    (here : s'.pc = pc') (same : s'.status = s.status ∧ s'.cr0 = s.cr0 ∧ s'.cr3 = s.cr3 ∧
      s'.cr4 = s.cr4 ∧ s'.efer = s.efer ∧ s'.cs = s.cs)
    (masked : s'.flags.interrupt = false) (upwards : s'.flags.direction = false)
    (stack : s'.low esp = s.low esp)
    (mem : ∀ place, place < l.bss + 28664 ∨ l.bss + 28672 ≤ place → s'.mem place = s.mem place) :
    Early l start pc' s' := by
  rcases same with ⟨status, cr0, cr3, cr4, efer, cs⟩
  have low := l.bss_low
  constructor
  case running => exact status.trans early.running
  case pc => exact here
  case masked => exact masked
  case upwards => exact upwards
  case cr0 => exact cr0.trans early.cr0
  case cr3 => exact cr3.trans early.cr3
  case cr4 => exact cr4.trans early.cr4
  case efer => exact efer.trans early.efer
  case cs => exact cs.trans early.cs
  case stack => exact stack.trans early.stack
  case magic =>
    rw [← early.magic]
    exact Mem.load_congr fun place from_ below => mem place (by omega)
  case info =>
    rw [← early.info]
    exact Mem.load_congr fun place from_ below => mem place (by omega)
  case outside =>
    intro place elsewhere
    exact (mem place (by omega)).trans (early.outside place elsewhere)

theorem Early.legacy {pc : Nat} (early : Early l start pc s) (handover : Handover l start) :
    s.efer.getLsbD 10 = false := by
  rw [early.efer]
  exact handover.legacy

theorem Early.flat {pc : Nat} (early : Early l start pc s) (handover : Handover l start) :
    s.cr0.getLsbD 31 = false := by
  rw [early.cr0]
  exact handover.flat

/-- The word below the top of the stack. -/
theorem Early.scratch {pc : Nat} (early : Early l start pc s) :
    (s.low esp - 4).toNat = l.bss + 28668 := by
  have low := l.bss_low
  have top : (s.low esp).toNat = l.bss + 28672 := by
    rw [early.stack]
    exact bss_toNat l .stackTop 28672 rfl (by decide)
  have four : (4 : BitVec 32).toNat = 4 := rfl
  rw [BitVec.toNat_sub, top, four]
  omega

/-- `pushfl`, `popl %eax`, `movl %eax, %ecx` and `xorl` -/
theorem leads_toggled (handover : Handover l start) (early : Early l start 6 s) :
    Leads (processor identifies cpuid) l.image entry64 s fun s' => Early l start 10 s' ∧
      s'.flags.ident = s.flags.ident ∧ s'.low ecx = s.flags.word ∧
      s'.low eax = { s.flags with ident := !s.flags.ident }.word := by
  have running := early.running
  have flat := early.flat handover
  have legacy := early.legacy handover
  refine Leads.flat running early.pc rfl legacy rfl flat rfl ?_
  iterate 3 refine Leads.flat running rfl rfl legacy rfl flat rfl ?_
  have read : BitVec.ofNat 32 ((s.mem.store32 (s.low esp - 4).toNat s.flags.word.toNat).load32
      (s.low esp - 4).toNat) = s.flags.word := loaded_of_stored _ _ _
  refine Leads.done ⟨early.next rfl ⟨rfl, rfl, rfl, rfl, rfl, rfl⟩ ?_ ?_ ?_ ?_, rfl, read, ?_⟩
  · exact early.masked
  · exact early.upwards
  · exact BitVec.sub_add_cancel _ _
  · intro place elsewhere
    apply Mem.store32_apply_of_outside
    rw [early.scratch]
    omega
  · refine Eq.trans ?_ s.flags.word_xor_ident
    exact congrArg (fun word => word ^^^ BitVec.twoPow 32 21) read

/-- `pushl` and `popfl` -/
theorem leads_flags {pc : Nat} {src : Reg} {f : Flags} (handover : Handover l start)
    (early : Early l start pc s) (push : entry64[pc]? = some (.code32 (.push src)))
    (popf : entry64[pc + 1]? = some (.code32 .popf)) (value : s.low src = f.word)
    (masked : f.interrupt = false) (upwards : f.direction = false) :
    Leads (processor identifies cpuid) l.image entry64 s fun s' => Early l start (pc + 2) s' ∧
      s'.flags = { f with ident := if identifies then f.ident else s.flags.ident } ∧
      ∀ r, r ≠ esp → s'.low r = s.low r := by
  have running := early.running
  have flat := early.flat handover
  have legacy := early.legacy handover
  refine Leads.flat running early.pc push legacy rfl flat rfl ?_
  refine Leads.flat running rfl popf legacy rfl flat rfl ?_
  have read : BitVec.ofNat 32 ((s.mem.store32 (s.low esp - 4).toNat (s.low src).toNat).load32
      (s.low esp - 4).toNat) = f.word := (loaded_of_stored _ _ _).trans value
  have flags : Flags.ofWord (BitVec.ofNat 32 ((s.mem.store32 (s.low esp - 4).toNat
      (s.low src).toNat).load32 (s.low esp - 4).toNat)) = f := by
    rw [read, f.ofWord_word]
  refine Leads.done ⟨early.next rfl ⟨rfl, rfl, rfl, rfl, rfl, rfl⟩ ?_ ?_ ?_ ?_, ?_, ?_⟩
  · exact (congrArg Flags.interrupt flags).trans masked
  · exact (congrArg Flags.direction flags).trans upwards
  · exact BitVec.sub_add_cancel _ _
  · intro place elsewhere
    apply Mem.store32_apply_of_outside
    rw [early.scratch]
    omega
  · exact congrArg (fun flags : Flags =>
      { flags with ident := if identifies then flags.ident else s.flags.ident }) flags
  · intro r different
    change Function.update (Function.update s.low esp _) esp _ r = _
    rw [Function.update_of_ne different, Function.update_of_ne different]

/-- `pushfl` and `popl %eax` -/
theorem leads_reread (handover : Handover l start) (early : Early l start 12 s) :
    Leads (processor identifies cpuid) l.image entry64 s fun s' => Early l start 14 s' ∧
      s'.flags = s.flags ∧ s'.low eax = s.flags.word ∧ s'.low ecx = s.low ecx := by
  have running := early.running
  have flat := early.flat handover
  have legacy := early.legacy handover
  refine Leads.flat running early.pc rfl legacy rfl flat rfl ?_
  refine Leads.flat running rfl rfl legacy rfl flat rfl ?_
  refine Leads.done ⟨early.next rfl ⟨rfl, rfl, rfl, rfl, rfl, rfl⟩ ?_ ?_ ?_ ?_, rfl, ?_, rfl⟩
  · exact early.masked
  · exact early.upwards
  · exact BitVec.sub_add_cancel _ _
  · intro place elsewhere
    apply Mem.store32_apply_of_outside
    rw [early.scratch]
    omega
  · exact loaded_of_stored _ _ _

/-- A comparison or a test and the jump behind it change nothing but flags. -/
theorem leads_jump {pc target : Nat} {first : Instr Sym Label} {cond : Cond} {name : Label}
    {f : Flags} (handover : Handover l start) (early : Early l start pc s)
    (compare : entry64[pc]? = some (.code32 first))
    (jump : entry64[pc + 1]? = some (.code32 (.jump cond name))) (fits : first.fits false = true)
    (effect : first.effect (processor identifies cpuid) l.image entry64 false
      { s with pc := pc + 1 } = .ok { s with pc := pc + 1, flags := f })
    (masked : f.interrupt = false) (upwards : f.direction = false)
    (found : entry64.findIdx (Line.isLabel name) = target) :
    Leads (processor identifies cpuid) l.image entry64 s
      (Early l start (if cond.Holds f then target else pc + 2)) := by
  have running := early.running
  have flat := early.flat handover
  have legacy := early.legacy handover
  refine Leads.flat running early.pc compare legacy fits flat effect ?_
  refine Leads.flat running rfl jump legacy rfl flat rfl ?_
  subst found
  exact Leads.done (early.next rfl ⟨rfl, rfl, rfl, rfl, rfl, rfl⟩ masked upwards rfl
    fun _ _ => rfl)

/-- The search for `cpuid` -/
theorem leads_identified (handover : Handover l start) (early : Early l start 6 s) :
    Leads (processor identifies cpuid) l.image entry64 s
      (Early l start (if identifies then 18 else 59)) := by
  refine (leads_toggled handover early).trans fun s1 ⟨early1, ident1, ecx1, eax1⟩ => ?_
  refine (leads_flags handover early1 rfl rfl eax1 early.masked early.upwards).trans
    fun s2 ⟨early2, flags2, low2⟩ => ?_
  refine (leads_reread handover early2).trans fun s3 ⟨early3, flags3, eax3, ecx3⟩ => ?_
  have ecxEq : s3.low ecx = s.flags.word :=
    ecx3.trans ((low2 ecx (by decide)).trans ecx1)
  refine (leads_flags handover early3 rfl rfl ecxEq early.masked early.upwards).trans
    fun s4 ⟨early4, flags4, low4⟩ => ?_
  have zero : equals (s4.low eax) (s4.low ecx) = !identifies := by
    have eaxEq : s4.low eax =
        { s.flags with ident := if identifies then !s.flags.ident else s.flags.ident }.word := by
      rw [low4 eax (by decide), eax3, flags2, ident1]
    rw [eaxEq, low4 ecx (by decide), ecxEq, equals]
    cases identifies with
    | false => exact decide_eq_true rfl
    | true =>
        refine decide_eq_false fun same => ?_
        have ident : (!s.flags.ident) = s.flags.ident :=
          congrArg Flags.ident (Flags.word_inj same)
        exact Bool.not_ne_self _ ident
  refine (leads_jump handover early4 rfl rfl rfl rfl early4.masked early4.upwards
    found_noLongMode).mono fun s5 early5 => ?_
  have taken : (if equals (s4.low eax) (s4.low ecx) = true then 59 else 18) =
      if identifies = true then 18 else 59 := by
    rw [zero]
    cases identifies with
    | false => rfl
    | true => rfl
  rw [← taken]
  exact early5

/-- `cpuid` with a function, and what is compared with its answer -/
theorem leads_leaf {pc : Nat} {function : BitVec 32} (handover : Handover l start)
    (early : Early l start pc s) (mov : entry64[pc]? = some (.code32 (.mov (.imm function) eax)))
    (call : entry64[pc + 1]? = some (.code32 .cpuid)) (there : identifies = true) :
    Leads (processor identifies cpuid) l.image entry64 s fun s' => Early l start (pc + 2) s' ∧
      s'.low eax = (cpuid function).eax ∧ s'.low edx = (cpuid function).edx := by
  have running := early.running
  have flat := early.flat handover
  have legacy := early.legacy handover
  refine Leads.flat running early.pc mov legacy rfl flat rfl ?_
  refine Leads.flat running rfl call legacy rfl flat (if_pos there) ?_
  refine Leads.done ⟨early.next rfl ⟨rfl, rfl, rfl, rfl, rfl, rfl⟩ early.masked early.upwards rfl
    fun _ _ => rfl, rfl, rfl⟩

/-- The processor is asked for long mode. -/
theorem leads_asked (handover : Handover l start) (early : Early l start 6 s) :
    Leads (processor identifies cpuid) l.image entry64 s
      (Early l start (if (processor identifies cpuid).LongMode then 26 else 59)) := by
  refine (leads_identified handover early).trans fun s1 early1 => ?_
  by_cases there : identifies = true
  case neg =>
    rw [if_neg there] at early1
    rw [if_neg fun longMode => there longMode.1]
    exact Leads.done early1
  rw [if_pos there] at early1
  refine (leads_leaf handover early1 rfl rfl there).trans fun s2 ⟨early2, eax2, _⟩ => ?_
  refine (leads_jump handover early2 rfl rfl rfl rfl early2.masked early2.upwards
    found_noLongMode).trans fun s3 early3 => ?_
  have carry : below (s2.low eax) 0x80000001 = true ↔
      ¬ 0x80000001 ≤ (cpuid 0x80000000).eax := by
    rw [eax2, below, decide_eq_true_iff]
    exact BitVec.not_le.symm
  by_cases extended : 0x80000001 ≤ (cpuid 0x80000000).eax
  case neg =>
    rw [if_neg fun longMode => extended longMode.2.1]
    rw [show Cond.Holds _ Cond.below = below (s2.low eax) 0x80000001 from rfl,
      if_pos (carry.mpr extended)] at early3
    exact Leads.done early3
  rw [show Cond.Holds _ Cond.below = below (s2.low eax) 0x80000001 from rfl,
    if_neg fun below => carry.mp below extended] at early3
  refine (leads_leaf handover early3 rfl rfl there).trans fun s4 ⟨early4, _, edx4⟩ => ?_
  have zero : equals (s4.low edx &&& BitVec.twoPow 32 29) 0 =
      !(cpuid 0x80000001).edx.getLsbD 29 := by
    rw [edx4, BitVec.and_twoPow, equals]
    cases (cpuid 0x80000001).edx.getLsbD 29 with
    | false => rfl
    | true => rfl
  refine (leads_jump handover early4 rfl rfl rfl rfl early4.masked early4.upwards
    found_noLongMode).mono fun s5 early5 => ?_
  rw [show Cond.Holds _ Cond.equal = equals (s4.low edx &&& BitVec.twoPow 32 29) 0 from rfl,
    zero] at early5
  by_cases bit : (cpuid 0x80000001).edx.getLsbD 29 = true
  · rw [if_pos ⟨there, extended, bit⟩]
    rw [bit] at early5
    exact early5
  · rw [if_neg fun longMode => bit longMode.2.2]
    rw [Bool.not_eq_true] at bit
    rw [bit] at early5
    exact early5

/-- Without long mode the processor stops for good. -/
theorem leads_hung (handover : Handover l start) (early : Early l start 59 s) :
    Leads (processor identifies cpuid) l.image entry64 s (Hung l start) := by
  have running := early.running
  have flat := early.flat handover
  have legacy := early.legacy handover
  refine Leads.label running early.pc rfl ?_
  refine Leads.flat running rfl rfl legacy rfl flat rfl ?_
  refine Leads.label running rfl rfl ?_
  refine Leads.flat running rfl rfl legacy rfl flat rfl ?_
  apply Leads.done
  constructor
  case halted => rfl
  case masked => rfl
  case flat => exact ⟨early.cr0, early.cr3, early.cr4, early.efer⟩
  case outside => exact early.outside

/-! ## The tables -/

/-- The state at the start of a round of `.fill_pd`, and behind the last one -/
structure Filling (l : Layout) (start : State Sym) (rounds : Nat) (s : State Sym) : Prop where
  running : s.status = .running
  pc : s.pc = if rounds < 512 then 38 else 45
  masked : s.flags.interrupt = false
  upwards : s.flags.direction = false
  cr0 : s.cr0 = start.cr0
  cr4 : s.cr4 = start.cr4
  efer : s.efer = start.efer
  cs : s.cs = start.cs
  index : s.low ecx = BitVec.ofNat 32 rounds
  entry : s.low eax = BitVec.ofNat 32 (0x83 + rounds * 0x200000)
  mem : ∃ before : Mem, before.load32 (l.bss + 28672) = (start.low eax).toNat ∧
    before.load32 (l.bss + 28676) = (start.low ebx).toNat ∧
    (∀ place, place < l.bss + 12288 ∨ l.bss + 28680 ≤ place → before place = start.mem place) ∧
    s.mem = fillPd (l.bss + 8192) rounds
      (((before.fill l.bss 0 12288).store32 l.bss (l.bss + 4096 ||| 0x03)).store32
        (l.bss + 4096) (l.bss + 8192 ||| 0x03))

theorem leads_linked (handover : Handover l start) (early : Early l start 26 s) :
    Leads (processor identifies cpuid) l.image entry64 s (Filling l start 0) := by
  have low := l.bss_low
  have running := early.running
  have flat := early.flat handover
  have legacy := early.legacy handover
  refine Leads.flat running early.pc rfl legacy rfl flat rfl ?_
  iterate 11 refine Leads.flat running rfl rfl legacy rfl flat rfl ?_
  apply Leads.done
  constructor
  case running => exact running
  case pc => rfl
  case masked => exact early.masked
  case upwards => exact early.upwards
  case cr0 => exact early.cr0
  case cr4 => exact early.cr4
  case efer => exact early.efer
  case cs => exact early.cs
  case index => rfl
  case entry => rfl
  case mem =>
    refine ⟨s.mem, early.magic, early.info, early.outside, ?_⟩
    have pml4 : (l.image.addr .bootPml4).toNat = l.bss :=
      bss_toNat l .bootPml4 0 rfl (by decide)
    have pdpt : (l.image.addr .bootPdpt).toNat = l.bss + 4096 :=
      bss_toNat l .bootPdpt 4096 rfl (by decide)
    have pd : (l.image.addr .bootPd).toNat = l.bss + 8192 :=
      bss_toNat l .bootPd 8192 rfl (by decide)
    have link : ∀ word : BitVec 32, (word ||| 0x03).toNat = word.toNat ||| 0x03 :=
      fun word => BitVec.toNat_or _ _
    change Mem.store32 (Mem.store32 (stos 0 (if s.flags.direction then -4 else 4)
      (3072 : BitVec 32).toNat (l.image.addr .bootPml4) s.mem) (l.image.addr .bootPml4).toNat
      (l.image.addr .bootPdpt ||| 0x03).toNat) (l.image.addr .bootPdpt).toNat
      (l.image.addr .bootPd ||| 0x03).toNat = _
    rw [early.upwards, link, link, pdpt, pd]
    rw [show (if false = true then (-4 : BitVec 32) else 4) = 4 from rfl,
      show (3072 : BitVec 32).toNat = 3072 from rfl, stos_zero _ _ _ (by omega), pml4]
    rfl

theorem Filling.next {n : Nat} (filling : Filling l start n s) :
    s.low ecx + 1 = BitVec.ofNat 32 (n + 1) := by
  rw [filling.index, BitVec.ofNat_add]
  rfl

theorem Filling.target {n : Nat} (inside : n < 512) (filling : Filling l start n s) :
    (if (!equals (s.low ecx + 1) 512) = true then 38 else 45) =
      if n + 1 < 512 then 38 else 45 := by
  have last : equals (s.low ecx + 1) 512 = decide (n + 1 = 512) := by
    rw [filling.next, equals, Bool.eq_iff_iff, decide_eq_true_iff, decide_eq_true_iff]
    constructor
    · intro same
      have value := congrArg BitVec.toNat same
      change (n + 1) % 2 ^ 32 = 512 at value
      omega
    · intro same
      rw [same]
      rfl
  rw [last]
  by_cases more : n + 1 < 512
  · rw [if_pos more, decide_eq_false (by omega)]
    rfl
  · rw [if_neg more, decide_eq_true (by omega)]
    rfl

/-- Where the halves of the entry are stored -/
theorem Filling.place {n offset : Nat} (inside : n < 512) (filling : Filling l start n s)
    (small : offset < 8) :
    (l.image.addr .bootPd + BitVec.ofNat 32 offset + 8 * s.low ecx).toNat =
      l.bss + 8192 + 8 * n + offset := by
  have low := l.bss_low
  have pd : (l.image.addr .bootPd).toNat = l.bss + 8192 :=
    bss_toNat l .bootPd 8192 rfl (by decide)
  have index : (s.low ecx).toNat = n := by
    rw [filling.index, BitVec.toNat_ofNat]
    exact Nat.mod_eq_of_lt (by omega)
  have scaled : (8 * s.low ecx).toNat = 8 * n := by
    rw [BitVec.toNat_mul, index]
    exact Nat.mod_eq_of_lt (by change 8 * n < _; omega)
  rw [BitVec.toNat_add, BitVec.toNat_add, scaled, pd, BitVec.toNat_ofNat]
  omega

theorem Filling.stored {n : Nat} {mem : Mem} (inside : n < 512) (filling : Filling l start n s)
    (filled : s.mem = fillPd (l.bss + 8192) n mem) :
    (s.mem.store32 (l.image.addr .bootPd + BitVec.ofNat 32 0 + 8 * s.low ecx).toNat
        (s.low eax).toNat).store32
      (l.image.addr .bootPd + BitVec.ofNat 32 4 + 8 * s.low ecx).toNat (0 : BitVec 32).toNat =
      fillPd (l.bss + 8192) (n + 1) mem := by
  have word : (s.low eax).toNat = 0x83 + n * 0x200000 := by
    rw [filling.entry, BitVec.toNat_ofNat]
    exact Nat.mod_eq_of_lt (by omega)
  rw [filling.place inside (by decide), filling.place inside (by decide), word, filled, fillPd]
  rfl

/-- One round of `.fill_pd` -/
theorem leads_round {n : Nat} (handover : Handover l start) (inside : n < 512)
    (filling : Filling l start n s) :
    Leads (processor identifies cpuid) l.image entry64 s (Filling l start (n + 1)) := by
  rcases filling.mem with ⟨before, magic, info, outside, mem⟩
  have running := filling.running
  have flat : s.cr0.getLsbD 31 = false := by
    rw [filling.cr0]
    exact handover.flat
  have legacy : s.efer.getLsbD 10 = false := by
    rw [filling.efer]
    exact handover.legacy
  have here : s.pc = 38 := by rw [filling.pc, if_pos inside]
  have next := filling.next
  have pc := filling.target inside
  have entry : s.low eax + 0x200000 = BitVec.ofNat 32 (0x83 + (n + 1) * 0x200000) := by
    rw [filling.entry, show 0x83 + (n + 1) * 0x200000 = 0x83 + n * 0x200000 + 0x200000 by omega,
      BitVec.ofNat_add _ 0x200000]
    rfl
  have stored := filling.stored inside mem
  have masked := filling.masked
  have upwards := filling.upwards
  have cr0Eq := filling.cr0
  have cr4Eq := filling.cr4
  have eferEq := filling.efer
  have csEq := filling.cs
  clear filling
  -- With its parts as variables the state stays small.
  rcases s with ⟨lows, highs, ⟨carry, zero, interrupt, direction, ident⟩, cr0, cr3, cr4, efer,
    gdtr, cs, data, memory, count, status⟩
  dsimp only at *
  refine Leads.label running here rfl ?_
  iterate 5 refine Leads.flat running rfl rfl legacy rfl flat rfl ?_
  refine Leads.jump running rfl rfl legacy flat found_fillPd ?_
  apply Leads.done
  constructor
  case running => exact running
  case pc => exact pc
  case masked => exact masked
  case upwards => exact upwards
  case cr0 => exact cr0Eq
  case cr4 => exact cr4Eq
  case efer => exact eferEq
  case cs => exact csEq
  case index => exact next
  case entry => exact entry
  case mem => exact ⟨before, magic, info, outside, stored⟩

/-! ## Long mode -/

/-- The memory with the three tables and the two variables. -/
def TablesBuilt (l : Layout) (start : State Sym) (mem : Mem) : Prop :=
  ∃ before : Mem, before.load32 (l.bss + 28672) = (start.low eax).toNat ∧
    before.load32 (l.bss + 28676) = (start.low ebx).toNat ∧
    (∀ place, place < l.bss + 12288 ∨ l.bss + 28680 ≤ place → before place = start.mem place) ∧
    mem = bootTables l.bss before

/-- Behind `.fill_pd`, before paging is turned on -/
structure Built (l : Layout) (start : State Sym) (pc : Nat) (s : State Sym) : Prop where
  running : s.status = .running
  pc : s.pc = pc
  masked : s.flags.interrupt = false
  upwards : s.flags.direction = false
  cr0 : s.cr0 = start.cr0
  legacy : s.efer.getLsbD 10 = false
  cs : s.cs = start.cs
  mem : TablesBuilt l start s.mem

theorem Filling.built (handover : Handover l start) (filling : Filling l start 512 s) :
    Built l start 45 s := by
  constructor
  case running => exact filling.running
  case pc => exact filling.pc
  case masked => exact filling.masked
  case upwards => exact filling.upwards
  case cr0 => exact filling.cr0
  case legacy =>
    rw [filling.efer]
    exact handover.legacy
  case cs => exact filling.cs
  case mem =>
    rcases filling.mem with ⟨before, magic, info, outside, mem⟩
    refine ⟨before, magic, info, outside, ?_⟩
    unfold bootTables
    exact mem

theorem Built.flat {pc : Nat} (built : Built l start pc s) (handover : Handover l start) :
    s.cr0.getLsbD 31 = false := by
  rw [built.cr0]
  exact handover.flat

theorem getLsbD_or_twoPow {width i : Nat} (word : BitVec width) (inside : i < width) :
    (word ||| BitVec.twoPow width i).getLsbD i = true := by
  rw [BitVec.getLsbD_or, BitVec.getLsbD_twoPow, decide_eq_true inside, decide_eq_true rfl,
    Bool.true_and, Bool.or_true]

/-- `CR3` and `CR4` -/
theorem leads_extended (handover : Handover l start) (built : Built l start 45 s) :
    Leads (processor identifies cpuid) l.image entry64 s fun s' => Built l start 50 s' ∧
      s'.cr3 = l.image.addr .bootPml4 ∧ s'.cr4.getLsbD 5 = true := by
  have flat := built.flat handover
  have pae := getLsbD_or_twoPow s.cr4 (show 5 < 32 by decide)
  rcases built with ⟨running, here, masked, upwards, cr0Eq, legacy, csEq, mem⟩
  rcases s with ⟨lows, highs, ⟨carry, zero, interrupt, direction, ident⟩, cr0, cr3, cr4, efer,
    gdtr, cs, data, memory, count, status⟩
  dsimp only at *
  refine Leads.flat running here rfl legacy rfl flat rfl ?_
  iterate 3 refine Leads.flat running rfl rfl legacy rfl flat rfl ?_
  refine Leads.flat running rfl rfl legacy rfl flat (writeCr4_legacy legacy) ?_
  exact Leads.done ⟨⟨running, rfl, masked, upwards, cr0Eq, legacy, csEq, mem⟩, rfl, pae⟩

/-- The enable bit of long mode -/
theorem leads_enabled (handover : Handover l start) (built : Built l start 50 s)
    (longMode : (processor identifies cpuid).LongMode) (space : s.cr3 = l.image.addr .bootPml4)
    (pae : s.cr4.getLsbD 5 = true) :
    Leads (processor identifies cpuid) l.image entry64 s fun s' => Built l start 54 s' ∧
      s'.cr3 = l.image.addr .bootPml4 ∧ s'.cr4.getLsbD 5 = true ∧ s'.efer.getLsbD 8 = true := by
  have flat := built.flat handover
  have bit : ∀ i, i < 32 → ((((s.efer >>> 32).setWidth 32 ++
      (s.efer.setWidth 32 ||| BitVec.twoPow 32 8)) &&& ~~~BitVec.twoPow 64 10) |||
        (s.efer &&& BitVec.twoPow 64 10)).getLsbD i = (s.efer.getLsbD i || decide (i = 8)) := by
    intro i inside
    rw [BitVec.getLsbD_or, BitVec.getLsbD_and, BitVec.getLsbD_and, BitVec.getLsbD_not,
      BitVec.getLsbD_append, if_pos inside, BitVec.getLsbD_or, BitVec.getLsbD_setWidth,
      BitVec.getLsbD_twoPow, BitVec.getLsbD_twoPow]
    by_cases active : i = 10
    · subst active
      simp
    · by_cases enable : i = 8
      · subst enable
        simp
      · simp [inside, enable, Ne.symm active, Ne.symm enable]
        omega
  rcases built with ⟨running, here, masked, upwards, cr0Eq, legacy, csEq, mem⟩
  have legacy' := (bit 10 (by decide)).trans (by rw [legacy])
  have enabled := (bit 8 (by decide)).trans (Bool.or_true _)
  rcases s with ⟨lows, highs, ⟨carry, zero, interrupt, direction, ident⟩, cr0, cr3, cr4, efer,
    gdtr, cs, data, memory, count, status⟩
  dsimp only at *
  refine Leads.flat running here rfl legacy rfl flat rfl ?_
  refine Leads.flat running rfl rfl legacy rfl flat (effect_rdmsr rfl longMode) ?_
  refine Leads.flat running rfl rfl legacy rfl flat rfl ?_
  refine Leads.flat running rfl rfl legacy rfl flat (effect_wrmsr rfl longMode flat) ?_
  exact Leads.done ⟨⟨running, rfl, masked, upwards, cr0Eq, legacy', csEq, mem⟩, space, pae, enabled⟩

end Phases

end Entry
end Boot
end AuraKernel
