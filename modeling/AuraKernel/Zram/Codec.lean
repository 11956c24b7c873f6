import AuraKernel.Machine.Words

namespace AuraKernel
namespace Zram

open Machine

/-!
# The page compressor of `kernel/core/zram.c`

`zram_compress_page` and `zram_decompress_page` are embedded loop by loop.  A
page is a list of bytes read by index; a read outside the list has no result,
so a function that returns `some` has read inside its input only.  The output
buffer is the list of the bytes written so far, since both functions write at
`dst[out_idx++]` only.  The compressor's writes are checked against the buffer
size, because the source relies on earlier tests for them.  Each outer loop
runs on fuel; running out of it also has no result.
-/

def zramPageSize : Nat := 4096

def zramTagLiteral : UInt8 := 0x00

def zramTagZeros : UInt8 := 0x01

def zramTagRun : UInt8 := 0x02

abbrev Page : Type := {bytes : List UInt8 // bytes.length = zramPageSize}

/-! ## Compression -/

/-- `dst[out_idx++] = byte`, which must stay below `max_dst`. -/
def emit (maxDst : Nat) (out : List UInt8) (byte : UInt8) : Option (List UInt8) :=
  if out.length < maxDst then some (out ++ [byte]) else none

/-- `for (k = 0; k < count; k++) dst[out_idx++] = src[start + k]` -/
def emitFrom (src : List UInt8) (maxDst start : Nat) : Nat → List UInt8 → Option (List UInt8)
  | 0, out => some out
  | count + 1, out => do
      let byte ← src[start]?
      let out ← emit maxDst out byte
      emitFrom src maxDst (start + 1) count out

/-- `while (in_idx + run < ZRAM_PAGE_SIZE && src[in_idx + run] == val && run < 255) run++`,
with `budget` the number of increments still allowed. -/
def runLoop (src : List UInt8) (inIdx : Nat) (val : UInt8) : Nat → Nat → Option Nat
  | 0, run => some run
  | budget + 1, run =>
      if inIdx + run < zramPageSize then do
        let byte ← src[inIdx + run]?
        if byte = val then runLoop src inIdx val budget (run + 1) else some run
      else some run

/-- The count of zeros under `if (src[in_idx] == 0)`; no test, no zeros. -/
def zeroLoop (src : List UInt8) (inIdx : Nat) (val : UInt8) : Option Nat :=
  if val = 0 then runLoop src inIdx 0 255 0 else some 0

/-- `src[i] == 0 && src[i+1] == 0 && src[i+2] == 0 && src[i+3] == 0` -/
def fourZeros (src : List UInt8) (i : Nat) : Option Bool := do
  let first ← src[i]?
  let second ← src[i + 1]?
  let third ← src[i + 2]?
  let fourth ← src[i + 3]?
  some (first == 0 && second == 0 && third == 0 && fourth == 0)

/-- The loop's break: four zeros, unless they are the last bytes of the page. -/
def literalBreak (src : List UInt8) (inIdx : Nat) : Option Bool :=
  if inIdx + 4 < zramPageSize then fourZeros src inIdx else some false

/-- The literal loop: how many bytes from `inIdx` on go into one block, with
`budget` the number still allowed by `lit_cap`. -/
def literalLoop (src : List UInt8) : Nat → Nat → Nat → Option Nat
  | 0, _, litLen => some litLen
  | budget + 1, inIdx, litLen =>
      if inIdx < zramPageSize then do
        let stop ← literalBreak src inIdx
        if stop then some litLen else literalLoop src budget (inIdx + 1) (litLen + 1)
      else some litLen

/-- The outer loop of `zram_compress_page`: the returned `int` and the bytes written. -/
def compressLoop (src : List UInt8) (maxDst : Nat) :
    Nat → Nat → List UInt8 → Option (Int × List UInt8)
  | 0, _, _ => none
  | fuel + 1, inIdx, out =>
      if inIdx < zramPageSize then
        if out.length + 4 ≥ maxDst then some (-1, out)
        else do
          let val ← src[inIdx]?
          -- Check for run of zeros
          let zeros ← zeroLoop src inIdx val
          if zeros ≥ 4 then
            let out ← emit maxDst out zramTagZeros
            let out ← emit maxDst out (UInt8.ofNat zeros)
            compressLoop src maxDst fuel (inIdx + zeros) out
          else
            -- Check for repeated byte run
            let run ← runLoop src inIdx val 255 0
            if run ≥ 6 then
              let out ← emit maxDst out zramTagRun
              let out ← emit maxDst out (UInt8.ofNat run)
              let out ← emit maxDst out val
              compressLoop src maxDst fuel (inIdx + run) out
            else
              -- Emit literal block
              let room := sub64 (sub64 maxDst out.length) 1
              let litCap := if room > 127 then 127 else room
              let litLen ← literalLoop src litCap inIdx 0
              if litLen > 0 then
                if out.length + 1 + litLen > maxDst then some (-1, out)
                else
                  let out ← emit maxDst out (zramTagLiteral ||| UInt8.ofNat (litLen &&& 0x7F))
                  let out ← emitFrom src maxDst inIdx litLen out
                  compressLoop src maxDst fuel (inIdx + litLen) out
              else compressLoop src maxDst fuel inIdx out
      else some (out.length, out)

/-- How a pass of the outer loop ends: the call returns, or the loop goes on. -/
inductive Pass
  | returned (ret : Int) (out : List UInt8)
  | next (inIdx : Nat) (out : List UInt8)
deriving DecidableEq, Repr

def compressPass (src : List UInt8) (maxDst inIdx : Nat) (out : List UInt8) : Option Pass :=
  if inIdx < zramPageSize then
    if out.length + 4 ≥ maxDst then some (.returned (-1) out)
    else do
      let val ← src[inIdx]?
      let zeros ← zeroLoop src inIdx val
      if zeros ≥ 4 then
        let out ← emit maxDst out zramTagZeros
        let out ← emit maxDst out (UInt8.ofNat zeros)
        some (.next (inIdx + zeros) out)
      else
        let run ← runLoop src inIdx val 255 0
        if run ≥ 6 then
          let out ← emit maxDst out zramTagRun
          let out ← emit maxDst out (UInt8.ofNat run)
          let out ← emit maxDst out val
          some (.next (inIdx + run) out)
        else
          let room := sub64 (sub64 maxDst out.length) 1
          let litCap := if room > 127 then 127 else room
          let litLen ← literalLoop src litCap inIdx 0
          if litLen > 0 then
            if out.length + 1 + litLen > maxDst then some (.returned (-1) out)
            else
              let out ← emit maxDst out (zramTagLiteral ||| UInt8.ofNat (litLen &&& 0x7F))
              let out ← emitFrom src maxDst inIdx litLen out
              some (.next (inIdx + litLen) out)
          else some (.next inIdx out)
  else some (.returned out.length out)

/-- `zram_compress_page`.  Every pass of the loop that goes on has consumed a
byte of the page, so one more pass than the page has bytes is enough. -/
def zramCompressPage (src : List UInt8) (maxDst : Nat) : Option (Int × List UInt8) :=
  compressLoop src maxDst (zramPageSize + 1) 0 []

/-! ## Decompression -/

/-- `for (i = 0; i < count && out_idx < ZRAM_PAGE_SIZE; i++) dst[out_idx++] = val` -/
def fillLoop (val : UInt8) : Nat → List UInt8 → List UInt8
  | 0, out => out
  | count + 1, out =>
      if out.length < zramPageSize then fillLoop val count (out ++ [val]) else out

/-- `for (i = 0; i < lit_len && out_idx < ZRAM_PAGE_SIZE; i++) dst[out_idx++] = src[in_idx++]`:
the final `in_idx` and the bytes written. -/
def literalCopy (src : List UInt8) : Nat → Nat → List UInt8 → Option (Nat × List UInt8)
  | 0, inIdx, out => some (inIdx, out)
  | count + 1, inIdx, out =>
      if out.length < zramPageSize then do
        let byte ← src[inIdx]?
        literalCopy src count (inIdx + 1) (out ++ [byte])
      else some (inIdx, out)

/-- The token kinds the decoder distinguishes. -/
inductive TokenKind
  | zeros
  | run
  | literal
deriving DecidableEq, Repr

/-- The branch `zram_decompress_page` takes on a tag byte. -/
def tagKind (tag : UInt8) : TokenKind :=
  if tag = zramTagZeros then .zeros else if tag = zramTagRun then .run else .literal

/-- The outer loop of `zram_decompress_page`: the returned `int` and the bytes written. -/
def decompressLoop (src : List UInt8) : Nat → Nat → List UInt8 → Option (Int × List UInt8)
  | 0, _, _ => none
  | fuel + 1, inIdx, out =>
      if inIdx < src.length ∧ out.length < zramPageSize then do
        let tag ← src[inIdx]?
        let inIdx := inIdx + 1
        match tagKind tag with
        | .zeros =>
            if inIdx ≥ src.length then some (-1, out)
            else
              let count ← src[inIdx]?
              decompressLoop src fuel (inIdx + 1) (fillLoop 0 count.toNat out)
        | .run =>
            if inIdx + 1 ≥ src.length then some (-1, out)
            else
              let count ← src[inIdx]?
              let val ← src[inIdx + 1]?
              decompressLoop src fuel (inIdx + 2) (fillLoop val count.toNat out)
        | .literal =>
            let litLen := (tag &&& 0x7F).toNat
            if litLen = 0 ∨ inIdx + litLen > src.length then some (-1, out)
            else
              let (inIdx, out) ← literalCopy src litLen inIdx out
              decompressLoop src fuel inIdx out
      else
        -- pad the rest of the page with zeros
        some (0, fillLoop 0 (zramPageSize - out.length) out)

/-- `zram_decompress_page`.  Every pass of the loop reads at least the tag byte. -/
def zramDecompressPage (src : List UInt8) : Option (Int × List UInt8) :=
  decompressLoop src (src.length + 1) 0 []

end Zram
end AuraKernel
