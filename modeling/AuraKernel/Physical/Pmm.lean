import AuraKernel.Machine.Bits

namespace AuraKernel
namespace Physical

open Machine

/-!
# The physical memory manager

`kernel/core/pmm.c` keeps one bit per 4 KiB frame in a bitmap that lives in
the memory it describes, together with a count of the used frames and a hint
where the next search may start.  The definitions follow the C functions; the
three copies of the success path of `pmm_alloc_frame` are one definition here,
as are the two word loops.
-/

def pageSize : Nat := 4096

/-- The static variables of `pmm.c`. -/
structure Pmm where
  bitmap : Nat
  totalFrames : Nat
  usedFrames : Nat
  allocHint : Nat
deriving DecidableEq, Repr

/-- The memory and the manager of its frames. -/
structure PhysState where
  mem : Mem
  pmm : Pmm

namespace PhysState

def bitmapTest (s : PhysState) (bit : Nat) : Bool := bitTest s.mem s.pmm.bitmap bit

def bitmapSet (s : PhysState) (bit : Nat) : PhysState :=
  { s with mem := bitSet s.mem s.pmm.bitmap bit }

def bitmapClear (s : PhysState) (bit : Nat) : PhysState :=
  { s with mem := bitClear s.mem s.pmm.bitmap bit }

end PhysState

/-- The number of bitmap bytes for `total_frames` frames. -/
def bitmapSize (totalFrames : Nat) : Nat := (totalFrames + 7) / 8

def pmmInit (memSize bitmapBase : Nat) (s : PhysState) : PhysState :=
  let totalFrames := memSize / pageSize
  { mem := s.mem.fill bitmapBase 0 (bitmapSize totalFrames)
    pmm := { bitmap := bitmapBase, totalFrames := totalFrames, usedFrames := 0, allocHint := 0 } }

def pmmMarkUsed (paddr : Nat) (s : PhysState) : PhysState :=
  let frame := paddr / pageSize
  if frame < s.pmm.totalFrames ∧ s.bitmapTest frame = false then
    let marked := s.bitmapSet frame
    { marked with pmm := { marked.pmm with usedFrames := wrap64 (marked.pmm.usedFrames + 1) } }
  else s

def pmmMarkFree (paddr : Nat) (s : PhysState) : PhysState :=
  let frame := paddr / pageSize
  if frame < s.pmm.totalFrames ∧ s.bitmapTest frame = true then
    let cleared := s.bitmapClear frame
    { cleared with
      pmm := { cleared.pmm with
        usedFrames := sub64 cleared.pmm.usedFrames 1
        allocHint := if frame < cleared.pmm.allocHint then frame else cleared.pmm.allocHint } }
  else s

def pmmFreeFrame (paddr : Nat) (s : PhysState) : PhysState := pmmMarkFree paddr s

/-- The word loop of `pmm_alloc_frame`, over `count` words from word `w` on:
the first frame whose bit is clear, if some word is not all ones. -/
def scanWords (s : PhysState) : Nat → Nat → Option Nat
  | 0, _ => none
  | count + 1, w =>
      let val := s.mem.load64 (s.pmm.bitmap + 8 * w)
      if val ≠ 2 ^ 64 - 1 then
        let frame := w * 64 + ctzll (not64 val)
        if frame < s.pmm.totalFrames then some frame else scanWords s count (w + 1)
      else scanWords s count (w + 1)

/-- A bit-by-bit loop over `count` frames from frame `i` on.  It is phase 3 of
`pmm_alloc_frame`, and over all frames it is the plain scan. -/
def scanBits (s : PhysState) : Nat → Nat → Option Nat
  | 0, _ => none
  | count + 1, i => if s.bitmapTest i = false then some i else scanBits s count (i + 1)

/-- The success path of `pmm_alloc_frame`: take `frame` and move the hint behind it. -/
def takeFrame (frame : Nat) (s : PhysState) : Nat × PhysState :=
  let marked := s.bitmapSet frame
  (frame * pageSize,
    { marked with
      pmm := { marked.pmm with
        usedFrames := wrap64 (marked.pmm.usedFrames + 1)
        allocHint := frame + 1 } })

/-- The frame the three phases of `pmm_alloc_frame` select. -/
def selectFrame (s : PhysState) : Option Nat :=
  let totalWords := s.pmm.totalFrames / 64
  let startWord := s.pmm.allocHint / 64
  -- Phase 1: from the hint to the end of the word array
  match scanWords s (totalWords - startWord) startWord with
  | some frame => some frame
  | none =>
      -- Phase 2: wrap around to the words before the hint
      match scanWords s startWord 0 with
      | some frame => some frame
      | none =>
          -- Phase 3: the bits after the last whole word
          scanBits s (s.pmm.totalFrames - totalWords * 64) (totalWords * 64)

def pmmAllocFrame (s : PhysState) : Nat × PhysState :=
  if s.pmm.usedFrames ≥ s.pmm.totalFrames then (0, s)
  else
    match selectFrame s with
    | some frame => takeFrame frame s
    | none => (0, s)

/-- The single-pass run counter of `pmm_alloc_contiguous` over `remaining`
frames from frame `i` on, with the current run `count` frames long and
beginning at `start`. -/
def scanRun (s : PhysState) (frameCount : Nat) : Nat → Nat → Nat → Nat → Option Nat
  | 0, _, _, _ => none
  | remaining + 1, i, count, start =>
      if s.bitmapTest i = false then
        let start := if count = 0 then i else start
        if count + 1 = frameCount then some start
        else scanRun s frameCount remaining (i + 1) (count + 1) start
      else scanRun s frameCount remaining (i + 1) 0 start

/-- Set the bits of `count` frames from `start` on. -/
def bitmapSetRange (start : Nat) : Nat → PhysState → PhysState
  | 0, s => s
  | count + 1, s => (bitmapSetRange start count s).bitmapSet (start + count)

def pmmAllocContiguous (frameCount : Nat) (s : PhysState) : Nat × PhysState :=
  if frameCount = 0 then (0, s)
  else
    match scanRun s frameCount s.pmm.totalFrames 0 0 0 with
    | some start =>
        let marked := bitmapSetRange start frameCount s
        (start * pageSize,
          { marked with
            pmm := { marked.pmm with usedFrames := wrap64 (marked.pmm.usedFrames + frameCount) } })
    | none => (0, s)

def pmmGetFreeMemory (s : PhysState) : Nat :=
  wrap64 (sub64 s.pmm.totalFrames s.pmm.usedFrames * pageSize)

def pmmGetTotalMemory (s : PhysState) : Nat := wrap64 (s.pmm.totalFrames * pageSize)

/-! ## The plain scan

The search the word scan replaces: test every frame from frame 0 on and take
the first free one. -/

/-- The original bit-by-bit allocation. -/
def plainAllocFrame (s : PhysState) : Nat × PhysState :=
  match scanBits s s.pmm.totalFrames 0 with
  | some frame => takeFrame frame s
  | none => (0, s)

end Physical
end AuraKernel
