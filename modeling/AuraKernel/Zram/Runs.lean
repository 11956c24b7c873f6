import AuraKernel.Zram.Sessions

namespace AuraKernel
namespace Zram

open Machine
open Physical
open Heap

/-!
# Runs of the pool

The outcomes of `zram_store` are listed once: every exit in front of the copy
leaves everything as it was, and the last one fills an unused slot.  The steps
of a session keep the invariant, so a handle that is live in a reachable session
still stands for the bytes that were stored under it.
-/

/-! ## Outcomes of a store -/

/-- The compressor fails with -1, or its output is a list of tokens. -/
theorem streamOf_cases (src : Page) :
    (∃ part, zramCompressPage src.val zramPageSize = some (-1, part)) ∨
      (zramCompressPage src.val zramPageSize = some (((streamOf src).length : Int), streamOf src) ∧
        streamOf src = encodeAll (pageTokens src.val)) := by
  rcases zramCompressPage_eq src zramPageSize with ⟨_, compressed⟩ | ⟨_, failed⟩
  · have stream : streamOf src = encodeAll (pageTokens src.val) := by
      unfold streamOf
      rw [compressed]
      simp only [Int.toNat_natCast, List.take_length]
    exact Or.inr ⟨by rw [stream]; exact compressed, stream⟩
  · exact Or.inl failed

/-- What `zram_store` does. -/
inductive StoreOutcome (src : Option Page) (outHandle : Option Nat) (z : ZramState) :
    Int → Option Nat → ZramState → Prop
  | refused (code : Int) (negative : code < 0) : StoreOutcome src outHandle z code outHandle z
  | exhausted (size : Nat) (heap : HeapState) (short : size < zramPageSize - 64)
      (failed : kmalloc size z.heap = some (0, heap)) :
      StoreOutcome src outHandle z (-4) outHandle { z with heap := heap }
  | stored (page : Page) (given : src = some page) (slot : Fin 1024)
      (found : findFree z.pool = some slot) (positive : 0 < (streamOf page).length)
      (short : (streamOf page).length < zramPageSize - 64)
      (stream : streamOf page = encodeAll (pageTokens page.val)) (ptr : Nat) (heap : HeapState)
      (granted : kmalloc (streamOf page).length z.heap = some (ptr, heap)) (nonzero : ptr ≠ 0) :
      StoreOutcome src outHandle z 0 (some slot.val)
        { heap := heap.write fun mem => writeBytes mem ptr (streamOf page)
          pool := Function.update z.pool slot
            { data := ptr, compressedLen := (streamOf page).length % 2 ^ 16, used := true }
          stats := z.stats.store (streamOf page).length }

/-- A store that finds a slot, compresses the page and gets a buffer. -/
theorem zramStore_stored {z : ZramState} {page : Page} {slot : Fin 1024} {ptr : Nat}
    {heap : HeapState} (handle : Nat) (found : findFree z.pool = some slot)
    (compressed : zramCompressPage page.val zramPageSize =
      some (((streamOf page).length : Int), streamOf page))
    (positive : 0 < (streamOf page).length) (short : (streamOf page).length < zramPageSize - 64)
    (granted : kmalloc (streamOf page).length z.heap = some (ptr, heap)) (nonzero : ptr ≠ 0) :
    zramStore (some page) (some handle) z =
      some (0, some slot.val,
        { heap := heap.write fun mem => writeBytes mem ptr (streamOf page)
          pool := Function.update z.pool slot
            { data := ptr, compressedLen := (streamOf page).length % 2 ^ 16, used := true }
          stats := z.stats.store (streamOf page).length }) := by
  have compressible : ¬ (((streamOf page).length : Int) ≤ 0 ∨
      ((streamOf page).length : Int) ≥ (zramPageSize : Int) - 64) := by
    unfold zramPageSize at *
    omega
  unfold zramStore
  simp only [found, compressed, Option.bind_eq_bind, Option.bind_some, Int.toNat_natCast,
    List.take_length]
  rw [if_neg compressible, granted, Option.bind_some]
  exact if_neg nonzero

/-- A store returns if the heap does. -/
theorem zramStore_outcome {z : ZramState}
    (heapReturns : ∀ size, ∃ ptr heap, kmalloc size z.heap = some (ptr, heap))
    (src : Option Page) (outHandle : Option Nat) :
    ∃ code outHandle' z', zramStore src outHandle z = some (code, outHandle', z') ∧
      StoreOutcome src outHandle z code outHandle' z' := by
  cases src with
  | none => exact ⟨-1, outHandle, z, rfl, .refused _ (by decide)⟩
  | some page =>
  cases outHandle with
  | none => exact ⟨-1, none, z, rfl, .refused _ (by decide)⟩
  | some handle =>
  cases found : findFree z.pool with
  | none =>
      refine ⟨-2, some handle, z, ?_, .refused _ (by decide)⟩
      unfold zramStore
      simp only [found]
  | some slot =>
  rcases streamOf_cases page with ⟨part, failed⟩ | ⟨compressed, stream⟩
  · refine ⟨-3, some handle, z, ?_, .refused _ (by decide)⟩
    unfold zramStore
    simp only [found, failed, Option.bind_eq_bind, Option.bind_some, Int.reduceNeg,
      Int.neg_nonpos_iff, Int.one_nonneg, true_or, if_true]
  · by_cases incompressible : ((streamOf page).length : Int) ≤ 0 ∨
        ((streamOf page).length : Int) ≥ (zramPageSize : Int) - 64
    · refine ⟨-3, some handle, z, ?_, .refused _ (by decide)⟩
      unfold zramStore
      simp only [found, compressed, Option.bind_eq_bind, Option.bind_some]
      exact if_pos incompressible
    · have positive : 0 < (streamOf page).length := by omega
      have short : (streamOf page).length < zramPageSize - 64 := by
        unfold zramPageSize at *
        omega
      rcases heapReturns (streamOf page).length with ⟨ptr, heap, granted⟩
      by_cases null : ptr = 0
      · refine ⟨-4, some handle, _, ?_, .exhausted _ heap short (null ▸ granted)⟩
        unfold zramStore
        simp only [found, compressed, Option.bind_eq_bind, Option.bind_some,
          Int.toNat_natCast]
        rw [if_neg incompressible, granted, Option.bind_some]
        exact if_pos null
      · exact ⟨0, some slot.val, _,
          zramStore_stored handle found compressed positive short granted null,
          .stored page rfl slot found positive short stream ptr heap granted null⟩

/-! ## Steps -/

section Steps

variable {s : Session} {reserved : Set Nat}

theorem SessionInv.heap_returns (inv : SessionInv s reserved) (size : Nat) :
    ∃ ptr heap, kmalloc size s.zram.heap = some (ptr, heap) := by
  rcases inv.heap with ⟨layout, heapInv⟩
  rcases heapInv.kmalloc size with ⟨ptr, heap, _, returned, _⟩
  exact ⟨ptr, heap, returned⟩

/-- The outcome of a store whose result is known. -/
theorem SessionInv.store_outcome (inv : SessionInv s reserved) {src : Option Page}
    {outHandle outHandle' : Option Nat} {code : Int} {z : ZramState}
    (returns : zramStore src outHandle s.zram = some (code, outHandle', z)) :
    StoreOutcome src outHandle s.zram code outHandle' z := by
  rcases zramStore_outcome inv.heap_returns src outHandle with
    ⟨code', handle', z', returned, outcome⟩
  cases returned.symm.trans returns
  exact outcome

/-- A failed request of the pool leaves the heap as it was. -/
theorem SessionInv.exhausted (inv : SessionInv s reserved) {size : Nat} {heap : HeapState}
    (short : size < zramPageSize - 64) (failed : kmalloc size s.zram.heap = some (0, heap)) :
    heap = s.zram.heap := by
  rcases inv.heap with ⟨layout, heapInv⟩
  rcases heapInv.kmalloc_returned failed with ⟨_, _, _, unchanged, _⟩
  unfold zramPageSize at short
  unfold headerSize pageSize at unchanged
  exact unchanged rfl (by omega)

/-- A page is stored in a slot that was not used. -/
theorem SessionInv.stored_page (inv : SessionInv s reserved) {page : Page} {slot : Fin 1024}
    (found : findFree s.zram.pool = some slot) (positive : 0 < (streamOf page).length)
    (short : (streamOf page).length < zramPageSize - 64)
    (stream : streamOf page = encodeAll (pageTokens page.val)) {ptr : Nat} {heap : HeapState}
    (granted : kmalloc (streamOf page).length s.zram.heap = some (ptr, heap)) (nonzero : ptr ≠ 0) :
    SessionInv
      { zram :=
          { heap := heap.write fun mem => writeBytes mem ptr (streamOf page)
            pool := Function.update s.zram.pool slot
              { data := ptr, compressedLen := (streamOf page).length % 2 ^ 16, used := true }
            stats := s.zram.stats.store (streamOf page).length }
        others := s.others
        taken := s.takenAfter (heap.write fun mem => writeBytes mem ptr (streamOf page))
        streams := Function.update s.streams slot (some (streamOf page)) } reserved := by
  have unused := findFree_some found
  rcases inv.heap with ⟨layout, heapInv⟩
  rcases heapInv.kmalloc_write
    (by unfold zramPageSize at short; omega) granted nonzero rfl with
    ⟨notHeld, room, holds, ⟨after, written⟩, older⟩
  constructor
  case heap =>
    refine ⟨after, ?_⟩
    have heldEq : s.others ∪ buffers (Function.update s.zram.pool slot
        { data := ptr, compressedLen := (streamOf page).length % 2 ^ 16, used := true }) =
        Call.handed ptr s.heapSession.held (.kmalloc (streamOf page).length) := by
      rw [buffers_store unused, Finset.union_insert]
      exact (if_neg nonzero).symm
    unfold Session.heapSession
    dsimp only
    rw [heldEq]
    exact written
  case apart =>
    intro q isOther
    rw [buffers_store unused, Finset.mem_insert]
    rintro (rfl | isBuffer)
    · exact notHeld (Finset.mem_union_left _ isOther)
    · exact inv.apart q isOther isBuffer
  case unused =>
    intro i empty
    dsimp only at empty ⊢
    by_cases same : i = slot
    · subst same
      rw [Function.update_self] at empty
      cases empty
    · rw [Function.update_of_ne same] at empty ⊢
      exact inv.unused i empty
  case stored =>
    intro i live held
    dsimp only at held ⊢
    by_cases same : i = slot
    · subst same
      rw [Function.update_self] at held ⊢
      cases held
      have lenLt : (streamOf page).length < 4032 := short
      exact ⟨rfl, Nat.mod_eq_of_lt (by omega), room, holds, pageTokens page.val,
        pageTokens_wellFormed _, stream⟩
    · rw [Function.update_of_ne same] at held ⊢
      have kept := older _ (Finset.mem_union_right _ (inv.buffer_mem held))
      exact (inv.stored i live held).congr kept.1 kept.2
  case distinct =>
    have newBuffer : ∀ i, i ≠ slot → (s.zram.pool i).used = true → (s.zram.pool i).data ≠ ptr := by
      rintro i _ used rfl
      exact notHeld (Finset.mem_union_right _ (mem_buffers.mpr ⟨i, used, rfl⟩))
    intro i j usedI usedJ equal
    dsimp only at usedI usedJ equal
    by_cases sameI : i = slot <;> by_cases sameJ : j = slot
    · rw [sameI, sameJ]
    · subst sameI
      rw [Function.update_self, Function.update_of_ne sameJ] at equal
      rw [Function.update_of_ne sameJ] at usedJ
      exact absurd equal.symm (newBuffer j sameJ usedJ)
    · subst sameJ
      rw [Function.update_of_ne sameI, Function.update_self] at equal
      rw [Function.update_of_ne sameI] at usedI
      exact absurd equal (newBuffer i sameI usedI)
    · rw [Function.update_of_ne sameI] at usedI equal
      rw [Function.update_of_ne sameJ] at usedJ equal
      exact inv.distinct i j usedI usedJ equal
  case accounted => exact inv.accounted.store unused positive short _

/-- What a store does to a session. -/
theorem SessionInv.store (inv : SessionInv s reserved) {src : Option Page}
    {outHandle outHandle' : Option Nat} {code : Int} {z : ZramState}
    (returns : zramStore src outHandle s.zram = some (code, outHandle', z)) :
    SessionInv (s.store src code outHandle' z) reserved ∧
      (code < 0 → outHandle' = outHandle ∧ z = s.zram) ∧
      (code = 0 ∨ code < 0) ∧
      (code = 0 → ∃ page slot, src = some page ∧ outHandle' = some slot.val ∧
        s.streams slot = none ∧
        (s.store src code outHandle' z).streams =
          Function.update s.streams slot (some (streamOf page))) := by
  cases inv.store_outcome returns with
  | refused _ negative =>
      have unchanged : s.store src code outHandle s.zram = s := by
        have noStream : ∀ i : Fin 1024, ¬ (code = 0 ∧ outHandle = some i.val) := by omega
        unfold Session.store
        simp only [takenAfter_same, noStream, if_false]
      refine ⟨unchanged.symm ▸ inv, fun _ => ⟨rfl, rfl⟩, Or.inr negative, ?_⟩
      intro zero
      omega
  | exhausted size heap short failed =>
      have heapSame := inv.exhausted short failed
      subst heapSame
      have unchanged : s.store src (-4) outHandle s.zram = s := by
        have noStream : ∀ i : Fin 1024, ¬ ((-4 : Int) = 0 ∧ outHandle = some i.val) := by omega
        unfold Session.store
        simp only [takenAfter_same, noStream, if_false]
      refine ⟨?_, fun _ => ⟨rfl, rfl⟩, Or.inr (by decide), fun zero => absurd zero (by decide)⟩
      exact unchanged.symm ▸ inv
  | stored page given slot found positive short stream ptr heap granted nonzero =>
      subst given
      have streamsEq : ∀ z, (s.store (some page) 0 (some slot.val) z).streams =
          Function.update s.streams slot (some (streamOf page)) := by
        intro z
        funext i
        by_cases same : i = slot
        · subst same
          rw [Function.update_self]
          exact if_pos ⟨rfl, rfl⟩
        · rw [Function.update_of_ne same]
          refine if_neg ?_
          rintro ⟨_, equal⟩
          exact same (Fin.ext (Option.some.inj equal).symm)
      have empty : s.streams slot = none := by
        cases live : s.streams slot with
        | none => rfl
        | some other =>
            have used := (inv.stored slot other live).used
            rw [findFree_some found] at used
            cases used
      refine ⟨?_, fun negative => absurd negative (by decide), Or.inl rfl,
        fun _ => ⟨page, slot, rfl, rfl, empty, streamsEq _⟩⟩
      have stored := inv.stored_page found positive short stream granted nonzero
      rw [← streamsEq s.zram] at stored
      exact stored

/-- A load of a live handle restores what the decoder makes of its bytes; it only
counts itself. -/
theorem SessionInv.load (inv : SessionInv s reserved) (handle : Fin 1024)
    (buffer : List UInt8) {stream : List UInt8} (live : s.streams handle = some stream) :
    ∃ page, zramDecompressPage stream = some (0, page) ∧
      zramLoad handle.val (some buffer) s.zram =
        some (0, some (page ++ buffer.drop page.length),
          { s.zram with
            stats := { s.zram.stats with
              totalDecompressions := wrap32 (s.zram.stats.totalDecompressions + 1) } }) := by
  rcases inv.stored handle stream live with ⟨used, lengthEq, _, holds, tokens, wellFormed, rfl⟩
  refine ⟨_, zramDecompressPage_eq wellFormed, ?_⟩
  unfold zramLoad
  dsimp only
  rw [dif_pos handle.isLt, if_pos used, lengthEq, holds.readBytes, zramDecompressPage_eq wellFormed]
  simp only [Option.bind_eq_bind, Option.bind_some, if_true]

/-- A load of any other handle fails. -/
theorem SessionInv.load_refused (inv : SessionInv s reserved) {handle : Nat}
    (dead : ∀ i : Fin 1024, i.val = handle → s.streams i = none) (dst : Option (List UInt8)) :
    zramLoad handle dst s.zram = some (-1, dst, s.zram) := by
  unfold zramLoad
  cases dst with
  | none => rfl
  | some buffer =>
      dsimp only
      by_cases inside : handle < 1024
      · rw [dif_pos inside, if_neg]
        rw [inv.unused ⟨handle, inside⟩ (dead _ rfl)]
        exact Bool.false_ne_true
      · rw [dif_neg inside]

/-- The state after a load differs in the lifetime total at most. -/
theorem SessionInv.load_state (inv : SessionInv s reserved) {handle : Nat}
    {dst dst' : Option (List UInt8)} {code : Int} {z : ZramState}
    (returns : zramLoad handle dst s.zram = some (code, dst', z)) :
    ∃ total, z = { s.zram with stats := { s.zram.stats with totalDecompressions := total } } := by
  have unchanged : s.zram = { s.zram with stats := { s.zram.stats with
      totalDecompressions := s.zram.stats.totalDecompressions } } := rfl
  have refused : zramLoad handle dst s.zram = some (-1, dst, s.zram) →
      ∃ total, z = { s.zram with stats := { s.zram.stats with totalDecompressions := total } } := by
    intro failed
    rw [failed] at returns
    cases returns
    exact ⟨_, unchanged⟩
  by_cases inside : handle < 1024
  · cases live : s.streams ⟨handle, inside⟩ with
    | none => exact refused (inv.load_refused (by rintro ⟨i, _⟩ rfl; exact live) dst)
    | some stream =>
        cases dst with
        | none => exact refused rfl
        | some buffer =>
            rcases inv.load ⟨handle, inside⟩ buffer live with ⟨page, _, loaded⟩
            rw [loaded] at returns
            cases returns
            exact ⟨_, rfl⟩
  · exact refused (inv.load_refused (by rintro ⟨i, bound⟩ rfl; exact absurd bound inside) dst)

theorem SessionInv.free_live (inv : SessionInv s reserved) (handle : Fin 1024)
    {stream : List UInt8} (live : s.streams handle = some stream) :
    (zramFree handle.val s.zram).1 = 0 ∧ SessionInv (s.free handle.val) reserved ∧
      (s.free handle.val).streams = Function.update s.streams handle none := by
  have used := (inv.stored handle stream live).used
  have result : zramFree handle.val s.zram =
      (0,
        { heap := kfree (s.zram.pool handle).data s.zram.heap
          pool := Function.update s.zram.pool handle emptySlot
          stats := s.zram.stats.free (s.zram.pool handle).compressedLen }) := by
    unfold zramFree
    rw [dif_pos handle.isLt, if_pos used]
  have streamsEq : (s.free handle.val).streams = Function.update s.streams handle none := by
    funext i
    unfold Session.free
    dsimp only
    rw [result]
    by_cases same : i = handle
    · subst same
      rw [Function.update_self, if_pos ⟨rfl, rfl⟩]
    · rw [Function.update_of_ne same, if_neg]
      rintro ⟨_, equal⟩
      exact same (Fin.ext equal.symm)
  refine ⟨by rw [result], ?_, streamsEq⟩
  have isBuffer := inv.buffer_mem live
  rcases inv.heap with ⟨layout, heapInv⟩
  have allowed : (Call.kfree (s.zram.pool handle).data).Allowed s.heapSession.held :=
    Or.inr (Finset.mem_union_right _ isBuffer)
  rcases heapInv.call _ allowed with ⟨result', heap, after, returned, heapInv', keeps⟩
  cases returned
  have othersKept : s.others.erase (s.zram.pool handle).data = s.others :=
    Finset.erase_eq_of_notMem fun member => inv.apart _ member isBuffer
  have buffersAfter := buffers_free inv.distinct used
  have heldEq : s.others ∪ buffers (Function.update s.zram.pool handle emptySlot) =
      s.heapSession.held.erase (s.zram.pool handle).data := by
    rw [buffersAfter]
    unfold Session.heapSession
    rw [Finset.erase_union_distrib, othersKept]
  have shape : s.free handle.val =
      { zram :=
          { heap := kfree (s.zram.pool handle).data s.zram.heap
            pool := Function.update s.zram.pool handle emptySlot
            stats := s.zram.stats.free (s.zram.pool handle).compressedLen }
        others := s.others
        taken := s.takenAfter (kfree (s.zram.pool handle).data s.zram.heap)
        streams := Function.update s.streams handle none } := by
    rw [← streamsEq]
    unfold Session.free
    rw [result]
  rw [shape]
  constructor
  case heap =>
    refine ⟨after, ?_⟩
    unfold Session.heapSession
    dsimp only
    rw [heldEq]
    exact heapInv'
  case apart =>
    intro q isOther
    dsimp only
    rw [buffersAfter]
    exact fun member => inv.apart q isOther (Finset.mem_of_mem_erase member)
  case unused =>
    intro i empty
    dsimp only at empty ⊢
    by_cases same : i = handle
    · subst same
      rw [Function.update_self]
      rfl
    · rw [Function.update_of_ne same] at empty ⊢
      exact inv.unused i empty
  case stored =>
    intro i other held
    dsimp only at held ⊢
    by_cases same : i = handle
    · subst same
      rw [Function.update_self] at held
      cases held
    · rw [Function.update_of_ne same] at held ⊢
      have slot := inv.stored i other held
      have inHeld : (s.zram.pool i).data ∈ s.heapSession.held :=
        Finset.mem_union_right _ (inv.buffer_mem held)
      have kept := keeps _ inHeld (Finset.mem_erase.mpr
        ⟨fun equal => same (inv.distinct i handle slot.used used equal), inHeld⟩)
      exact slot.congr kept.1 kept.2
  case distinct =>
    have usedBefore : ∀ i, (Function.update s.zram.pool handle emptySlot i).used = true →
        i ≠ handle := by
      rintro i usedI rfl
      rw [Function.update_self] at usedI
      cases usedI
    intro i j usedI usedJ equal
    dsimp only at usedI usedJ equal
    have notI := usedBefore i usedI
    have notJ := usedBefore j usedJ
    rw [Function.update_of_ne notI] at usedI equal
    rw [Function.update_of_ne notJ] at usedJ equal
    exact inv.distinct i j usedI usedJ equal
  case accounted => exact inv.accounted.free used _

/-- A free of any other handle fails and changes nothing. -/
theorem SessionInv.free_dead (inv : SessionInv s reserved) {handle : Nat}
    (dead : ∀ i : Fin 1024, i.val = handle → s.streams i = none) :
    zramFree handle s.zram = (-1, s.zram) ∧ s.free handle = s := by
  have result : zramFree handle s.zram = (-1, s.zram) := by
    unfold zramFree
    by_cases inside : handle < 1024
    · rw [dif_pos inside, if_neg]
      rw [inv.unused ⟨handle, inside⟩ (dead _ rfl)]
      exact Bool.false_ne_true
    · rw [dif_neg inside]
  refine ⟨result, ?_⟩
  have noStream : ∀ i : Fin 1024, ¬ ((-1 : Int) = 0 ∧ handle = i.val) := by omega
  unfold Session.free
  simp only [result, takenAfter_same, noStream, if_false]

theorem SessionInv.free (inv : SessionInv s reserved) (handle : Nat) :
    SessionInv (s.free handle) reserved := by
  by_cases inside : handle < 1024
  · cases live : s.streams ⟨handle, inside⟩ with
    | none =>
        rw [(inv.free_dead (by rintro ⟨i, _⟩ rfl; exact live)).2]
        exact inv
    | some stream => exact (inv.free_live ⟨handle, inside⟩ live).2.1
  · rw [(inv.free_dead (by rintro ⟨i, bound⟩ rfl; exact absurd bound inside)).2]
    exact inv

theorem SessionInv.step {t : Session} (inv : SessionInv s reserved)
    (step : Session.Step reserved s t) : SessionInv t reserved := by
  cases step with
  | store src outHandle code outHandle' z returns => exact (inv.store returns).1
  | load handle dst code dst' z returns =>
      rcases inv.load_state returns with ⟨total, rfl⟩
      exact inv.same_pool inv.heap inv.apart (fun _ _ => ⟨rfl, fun _ _ _ => rfl⟩)
        (inv.accounted.congr _ _ _)
  | free handle => exact inv.free handle
  | call call result heap allowed returns => exact inv.call allowed returns
  | write ptr assign member only => exact inv.write member only
  | other phys space total used same => exact inv.other space total used same

/-- `zram_init` on a heap in use. -/
theorem sessionInv_init {heap : Heap.Session} {layout : Layout}
    (heapInv : Heap.SessionInv heap reserved layout) : SessionInv (Session.init heap) reserved where
  heap := by
    have noBuffers : buffers (fun _ => emptySlot) = ∅ := by
      ext ptr
      simp [mem_buffers, emptySlot]
    refine ⟨layout, ?_⟩
    unfold Session.heapSession Session.init zramInit
    dsimp only
    rw [noBuffers, Finset.union_empty]
    exact heapInv
  apart := by simp [Session.init, zramInit, mem_buffers, emptySlot]
  unused := fun _ _ => rfl
  stored := fun _ _ live => by cases live
  distinct := fun _ _ used => Bool.noConfusion used
  accounted := zramInit_accounted _

theorem reachable_inv {phys : PhysState} {offset : Nat} (space : FrameSpace phys offset reserved)
    (reachable : Session.Reachable reserved offset phys s) : SessionInv s reserved := by
  induction reachable with
  | init heap reachable =>
      rcases Heap.reachable_inv space reachable with ⟨layout, heapInv⟩
      exact sessionInv_init heapInv
  | step _ step inductionHypothesis => exact inductionHypothesis.step step

end Steps

/-! ## Isolation of handles -/

/-- The handles of a session are isolated: a store that succeeds returns a
handle that is not live, a live handle loads what the decoder makes of its own
bytes, and the other handles can be neither loaded nor freed.  A handle stays
live until it is freed and dead until a store returns it. -/
structure Isolated (reserved : Set Nat) (s : Session) : Prop where
  store : ∀ src outHandle, ∃ code outHandle' z,
    zramStore src outHandle s.zram = some (code, outHandle', z) ∧
      (code = 0 → ∃ page slot, src = some page ∧ outHandle' = some slot.val ∧
        s.streams slot = none ∧ (s.store src code outHandle' z).streams =
          Function.update s.streams slot (some (streamOf page))) ∧
      (code ≠ 0 → (s.store src code outHandle' z).streams = s.streams)
  load : ∀ handle : Fin 1024, ∀ stream, s.streams handle = some stream →
    ∀ buffer : List UInt8, buffer.length = zramPageSize →
      ∃ page z, zramDecompressPage stream = some (0, page) ∧
        zramLoad handle.val (some buffer) s.zram = some (0, some page, z)
  free : ∀ handle : Fin 1024, ∀ stream, s.streams handle = some stream →
    (zramFree handle.val s.zram).1 = 0 ∧
      (s.free handle.val).streams = Function.update s.streams handle none
  dead : ∀ handle, (∀ i : Fin 1024, i.val = handle → s.streams i = none) →
    (∀ dst, zramLoad handle dst s.zram = some (-1, dst, s.zram)) ∧
      zramFree handle s.zram = (-1, s.zram)
  stays_live : ∀ t, Session.Step reserved s t → ∀ handle stream, s.streams handle = some stream →
    t.streams handle = some stream ∨ t = s.free handle.val
  stays_dead : ∀ t, Session.Step reserved s t → ∀ handle, s.streams handle = none →
    t.streams handle = none ∨ ∃ page outHandle z,
      zramStore (some page) outHandle s.zram = some (0, some handle.val, z) ∧
        t = s.store (some page) 0 (some handle.val) z

section Claims

variable {s : Session} {reserved : Set Nat} {phys : PhysState} {offset : Nat}

/-- A step changes the bytes behind a handle by storing or freeing it only. -/
theorem SessionInv.step_streams {t : Session} (inv : SessionInv s reserved)
    (step : Session.Step reserved s t) (handle : Fin 1024) :
    t.streams handle = s.streams handle ∨
      (s.streams handle ≠ none ∧ t = s.free handle.val) ∨
      (s.streams handle = none ∧ ∃ page outHandle z,
        zramStore (some page) outHandle s.zram = some (0, some handle.val, z) ∧
          t = s.store (some page) 0 (some handle.val) z) := by
  cases step with
  | store src outHandle code outHandle' z returns =>
      by_cases success : code = 0 ∧ outHandle' = some handle.val
      · rcases success with ⟨rfl, rfl⟩
        rcases (inv.store returns).2.2.2 rfl with ⟨page, slot, rfl, equal, empty, _⟩
        have same : slot = handle := Fin.ext (Option.some.inj equal).symm
        subst same
        exact Or.inr (Or.inr ⟨empty, page, outHandle, z, returns, rfl⟩)
      · exact Or.inl (if_neg success)
  | load loaded dst code dst' z returns => exact Or.inl rfl
  | free freed =>
      by_cases same : freed = handle.val
      · subst same
        cases live : s.streams handle with
        | none =>
            have dead : ∀ i : Fin 1024, i.val = handle.val → s.streams i = none := by
              intro i equal
              rw [Fin.ext equal]
              exact live
            rw [(inv.free_dead dead).2]
            exact Or.inl live
        | some stream => exact Or.inr (Or.inl ⟨Option.some_ne_none _, rfl⟩)
      · refine Or.inl (if_neg ?_)
        rintro ⟨_, equal⟩
        exact same equal
  | call call result heap allowed returns => exact Or.inl rfl
  | write ptr assign member only => exact Or.inl rfl
  | other phys space total used same => exact Or.inl rfl

theorem length_decompressed {tokens : List Token}
    (wellFormed : ∀ token ∈ tokens, token.WellFormed) {page : List UInt8}
    (decoded : zramDecompressPage (encodeAll tokens) = some (0, page)) :
    page.length = zramPageSize := by
  rw [zramDecompressPage_eq wellFormed] at decoded
  cases decoded
  exact length_padTo _ _

/-- In every session that can be reached from `zram_init`, with other callers of the heap and of
the frame manager in between, the handles are isolated: what is done to one handle is not seen
through another, and a handle that is not live is refused. -/
theorem reachable_isolated (space : FrameSpace phys offset reserved)
    (reachable : Session.Reachable reserved offset phys s) : Isolated reserved s := by
  have inv := reachable_inv space reachable
  constructor
  case store =>
    intro src outHandle
    rcases zramStore_outcome inv.heap_returns src outHandle with ⟨code, outHandle', z, returned, _⟩
    refine ⟨code, outHandle', z, returned, (inv.store returned).2.2.2, fun failed => ?_⟩
    funext i
    exact if_neg fun success => failed success.1
  case load =>
    intro handle stream live buffer length
    rcases inv.load handle buffer live with ⟨page, decoded, loaded⟩
    rcases (inv.stored handle stream live).tokens with ⟨tokens, wellFormed, rfl⟩
    have pageLength := length_decompressed wellFormed decoded
    rw [List.drop_eq_nil_of_le (by omega), List.append_nil] at loaded
    exact ⟨page, _, decoded, loaded⟩
  case free =>
    intro handle stream live
    have freed := inv.free_live handle live
    exact ⟨freed.1, freed.2.2⟩
  case dead =>
    intro handle dead
    exact ⟨inv.load_refused dead, (inv.free_dead dead).1⟩
  case stays_live =>
    intro t step handle stream live
    rcases inv.step_streams step handle with same | ⟨_, freed⟩ | ⟨dead, _⟩
    · exact Or.inl (same.trans live)
    · exact Or.inr freed
    · rw [live] at dead
      cases dead
  case stays_dead =>
    intro t step handle dead
    rcases inv.step_streams step handle with same | ⟨live, _⟩ | ⟨_, stored⟩
    · exact Or.inl (same.trans dead)
    · exact absurd dead live
    · exact Or.inr stored

@[irreducible] def zeroPage : Page := ⟨List.replicate zramPageSize 0, List.length_replicate⟩

/-- The first page that is stored on the small machine gets handle 0; its compressed bytes are
16 runs of 255 zeros and one of 16. -/
theorem smallMachine_store :
    ∃ z, zramStore (some zeroPage) (some 9) (zramInit (heapInit 0 smallMachine)) =
        some (0, some 0, z) ∧ z.stats.pagesStored = 1 ∧
      Session.Reachable {frame | frame < reservedFrames (ramSize 32768) 4000} 0 smallMachine
        ((Session.init ⟨heapInit 0 smallMachine, ∅, ∅⟩).store (some zeroPage) 0 (some 0) z) := by
  have fits : Fits zramPageSize (pageTokens zeroPage.val) 0 := by decide +kernel
  have length : (encodeAll (pageTokens zeroPage.val)).length = 34 := by decide +kernel
  have found : findFree (zramInit (heapInit 0 smallMachine)).pool = some 0 := by decide +kernel
  have granted : (Heap.kmalloc 34 (heapInit 0 smallMachine)).map Prod.fst = some 8240 := by
    decide +kernel
  rcases Option.map_eq_some_iff.mp granted with ⟨⟨ptr, heap⟩, returned, rfl⟩
  have compressed := (zramCompressPage_eq zeroPage zramPageSize).resolve_right
    fun failed => failed.1 fits
  rcases streamOf_cases zeroPage with ⟨part, failed⟩ | ⟨succeeded, stream⟩
  · have codes := (Prod.mk.inj (Option.some.inj (failed.symm.trans compressed.2))).1
    omega
  rw [← stream] at length
  have stored := zramStore_stored 9 found succeeded (by rw [length]; decide)
    (by rw [length]; decide) (by rw [length]; exact returned) (by decide)
  exact ⟨_, stored, rfl, .step (.init _ Relation.ReflTransGen.refl) (.store _ _ _ _ _ stored)⟩

/-- Right after that store handle 0 is live, and the handles are isolated. -/
theorem reachable_isolated_small :
    ∃ z, zramStore (some zeroPage) (some 9) (zramInit (heapInit 0 smallMachine)) =
        some (0, some 0, z) ∧
      let stored :=
        (Session.init ⟨heapInit 0 smallMachine, ∅, ∅⟩).store (some zeroPage) 0 (some 0) z
      stored.streams 0 = some (streamOf zeroPage) ∧
        Isolated {frame | frame < reservedFrames (ramSize 32768) 4000} stored := by
  rcases smallMachine_store with ⟨z, stored, _, reachable⟩
  exact ⟨z, stored, rfl, reachable_isolated smallMachine_space reachable⟩

/-! ## Accounting and atomicity -/

def usedSlots (pool : Fin 1024 → Slot) : Finset (Fin 1024) :=
  Finset.univ.filter fun i => (pool i).used = true

/-- The statistics are exact, and no counter of the pages in use is near its end. -/
structure ExactStats (z : ZramState) : Prop where
  pages : z.stats.pagesStored = (usedSlots z.pool).card
  original : z.stats.originalBytes = zramPageSize * z.stats.pagesStored
  compressed : z.stats.compressedBytes = ∑ i ∈ usedSlots z.pool, (z.pool i).compressedLen
  ratio : z.stats.compressionRatioX100 =
    if z.stats.compressedBytes > 0 then 100 * z.stats.originalBytes / z.stats.compressedBytes
    else 100
  pages_le : z.stats.pagesStored ≤ 1024
  original_le : z.stats.originalBytes ≤ 2 ^ 22
  compressed_le : z.stats.compressedBytes ≤ 2 ^ 22
  lengths : ∀ i ∈ usedSlots z.pool, (z.pool i).compressedLen < 2 ^ 16

/-- Calls of `zram_store` and `zram_free` with a negative result change nothing. -/
structure FailsCleanly (z : ZramState) : Prop where
  store : ∀ src outHandle, ∃ code outHandle' z',
    zramStore src outHandle z = some (code, outHandle', z') ∧ (code = 0 ∨ code < 0) ∧
      (code < 0 → outHandle' = outHandle ∧ z' = z)
  free : ∀ handle, ((zramFree handle z).1 = 0 ∨ (zramFree handle z).1 < 0) ∧
    ((zramFree handle z).1 < 0 → (zramFree handle z).2 = z)

theorem Accounted.exact {z : ZramState} (accounted : Accounted z) : ExactStats z where
  pages := by
    rw [accounted.pages]
    exact (Finset.card_filter _ _).symm
  original := accounted.original
  compressed := by
    rw [accounted.compressed]
    exact (Finset.sum_filter _ _).symm
  ratio := accounted.ratio
  pages_le := accounted.small.1
  original_le := accounted.small.2.1
  compressed_le := accounted.small.2.2
  lengths := fun i member => by
    have short := (accounted.lengths i (Finset.mem_filter.mp member).2).2
    unfold zramPageSize at short
    omega

theorem SessionInv.failsCleanly (inv : SessionInv s reserved) : FailsCleanly s.zram where
  store := fun src outHandle => by
    rcases zramStore_outcome inv.heap_returns src outHandle with ⟨code, outHandle', z, returned, _⟩
    have stored := inv.store returned
    exact ⟨code, outHandle', z, returned, stored.2.2.1, stored.2.1⟩
  free := fun handle => by
    unfold zramFree
    split
    · dsimp only
      split
      · exact ⟨Or.inl rfl, fun negative => absurd negative (Int.lt_irrefl 0)⟩
      · exact ⟨Or.inr (Int.negSucc_lt_zero 0), fun _ => rfl⟩
    · exact ⟨Or.inr (Int.negSucc_lt_zero 0), fun _ => rfl⟩

/-- In every session that can be reached from `zram_init` the statistics are those of the pages
that are stored, no counter of them wraps, and a call of `zram_store` or `zram_free` that fails
leaves no trace. -/
theorem reachable_exactStats (space : FrameSpace phys offset reserved)
    (reachable : Session.Reachable reserved offset phys s) :
    ExactStats s.zram ∧ FailsCleanly s.zram :=
  have inv := reachable_inv space reachable
  ⟨inv.accounted.exact, inv.failsCleanly⟩

/-- Right after that store one page is counted, with exact statistics. -/
theorem reachable_exactStats_small :
    ∃ z, zramStore (some zeroPage) (some 9) (zramInit (heapInit 0 smallMachine)) =
        some (0, some 0, z) ∧ z.stats.pagesStored = 1 ∧ ExactStats z ∧ FailsCleanly z := by
  rcases smallMachine_store with ⟨z, stored, pages, reachable⟩
  exact ⟨z, stored, pages, reachable_exactStats smallMachine_space reachable⟩

end Claims

end Zram
end AuraKernel
