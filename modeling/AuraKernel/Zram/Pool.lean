import AuraKernel.Heap.Heap
import AuraKernel.Machine.Bytes
import AuraKernel.Zram.Codec
import Mathlib.Data.Fin.Basic
import Mathlib.Logic.Function.Basic

namespace AuraKernel
namespace Zram

open Machine
open Heap

/-!
# The pool of compressed pages

`zram_store` compresses a page on its stack, copies the result to a buffer from
the heap and notes the buffer in a slot of the pool; the handle is the number of
the slot.  The page, the handle that is written and the page that is restored
belong to the caller: they are values here, and `none` is a NULL pointer.
-/

structure Slot where
  data : Nat
  compressedLen : Nat
  used : Bool
deriving DecidableEq, Repr

structure Stats where
  pagesStored : Nat
  originalBytes : Nat
  compressedBytes : Nat
  compressionRatioX100 : Nat
  totalCompressions : Nat
  totalDecompressions : Nat
deriving DecidableEq, Repr

/-- The static variables of `zram.c`, with the heap below them. -/
structure ZramState where
  heap : HeapState
  pool : Fin 1024 → Slot
  stats : Stats

def emptySlot : Slot := { data := 0, compressedLen := 0, used := false }

def zramInit (heap : HeapState) : ZramState where
  heap := heap
  pool := fun _ => emptySlot
  stats :=
    { pagesStored := 0
      originalBytes := 0
      compressedBytes := 0
      compressionRatioX100 := 100
      totalCompressions := 0
      totalDecompressions := 0 }

/-- The first slot that is not used. -/
def findFree (pool : Fin 1024 → Slot) : Option (Fin 1024) :=
  (List.finRange 1024).find? fun i => (pool i).used = false

/-- `(uint32_t)(((uint64_t)original_bytes * 100ULL) / compressed_bytes)` -/
def ratioX100 (originalBytes compressedBytes : Nat) : Nat :=
  wrap32 (wrap64 (originalBytes * 100) / compressedBytes)

/-- The statistics after a page of `compLen` bytes is stored. -/
def Stats.store (stats : Stats) (compLen : Nat) : Stats :=
  let originalBytes := wrap32 (stats.originalBytes + zramPageSize)
  let compressedBytes := wrap32 (stats.compressedBytes + wrap32 compLen)
  { pagesStored := wrap32 (stats.pagesStored + 1)
    originalBytes := originalBytes
    compressedBytes := compressedBytes
    compressionRatioX100 :=
      if compressedBytes > 0 then ratioX100 originalBytes compressedBytes
      else stats.compressionRatioX100
    totalCompressions := wrap32 (stats.totalCompressions + 1)
    totalDecompressions := stats.totalDecompressions }

def sub32 (left right : Nat) : Nat :=
  if right ≤ left then left - right else left + 2 ^ 32 - right

/-- The statistics after a page of `compressedLen` bytes is freed. -/
def Stats.free (stats : Stats) (compressedLen : Nat) : Stats :=
  let originalBytes := sub32 stats.originalBytes zramPageSize
  let compressedBytes := sub32 stats.compressedBytes compressedLen
  { pagesStored := sub32 stats.pagesStored 1
    originalBytes := originalBytes
    compressedBytes := compressedBytes
    compressionRatioX100 :=
      if compressedBytes > 0 then ratioX100 originalBytes compressedBytes else 100
    totalCompressions := stats.totalCompressions
    totalDecompressions := stats.totalDecompressions }

/-- `zram_store`: the result, the handle of the caller afterwards, and the state. -/
def zramStore (src : Option Page) (outHandle : Option Nat) (z : ZramState) :
    Option (Int × Option Nat × ZramState) :=
  match src, outHandle with
  | some src, some _ =>
      match findFree z.pool with
      | none => some (-2, outHandle, z)
      | some slot => do
          let (compLen, tempBuf) ← zramCompressPage src.val zramPageSize
          if compLen ≤ 0 ∨ compLen ≥ (zramPageSize : Int) - 64 then some (-3, outHandle, z)
          else do
            let (heapBuf, heap) ← kmalloc compLen.toNat z.heap
            if heapBuf = 0 then some (-4, outHandle, { z with heap := heap })
            else
              some (0, some slot.val,
                { heap := heap.write fun mem =>
                    writeBytes mem heapBuf (tempBuf.take compLen.toNat)
                  pool := Function.update z.pool slot
                    { data := heapBuf, compressedLen := compLen.toNat % 2 ^ 16, used := true }
                  stats := z.stats.store compLen.toNat })
  | _, _ => some (-1, outHandle, z)

/-- `zram_load`: the result, the buffer of the caller afterwards, and the state. -/
def zramLoad (handle : Nat) (dst : Option (List UInt8)) (z : ZramState) :
    Option (Int × Option (List UInt8) × ZramState) :=
  match dst with
  | none => some (-1, none, z)
  | some buffer =>
      if inside : handle < 1024 then
        let slot := z.pool ⟨handle, inside⟩
        if slot.used then do
          let (ret, out) ← zramDecompressPage (readBytes z.heap.mem slot.data slot.compressedLen)
          let dst := some (out ++ buffer.drop out.length)
          if ret = 0 then
            some (ret, dst,
              { z with
                stats := { z.stats with
                  totalDecompressions := wrap32 (z.stats.totalDecompressions + 1) } })
          else some (ret, dst, z)
        else some (-1, dst, z)
      else some (-1, dst, z)

def zramFree (handle : Nat) (z : ZramState) : Int × ZramState :=
  if inside : handle < 1024 then
    let slot := z.pool ⟨handle, inside⟩
    if slot.used then
      (0,
        { heap := kfree slot.data z.heap
          pool := Function.update z.pool ⟨handle, inside⟩ emptySlot
          stats := z.stats.free slot.compressedLen })
    else (-1, z)
  else (-1, z)

/-! ## Free slots -/

theorem findFree_some {pool : Fin 1024 → Slot} {i : Fin 1024} (found : findFree pool = some i) :
    (pool i).used = false := by
  have holds := List.find?_some found
  exact of_decide_eq_true holds

end Zram
end AuraKernel
