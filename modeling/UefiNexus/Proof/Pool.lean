/-
  `InitMemoryMap` owns its block of the pool.

  * `memLib_initMemoryMap`: with the map as a value, the calls on pointers are those of
    `initMemoryMap`, so all results about it are about the pointers too;
  * `HoldsMap s l`: the events so far are no misuse, with at most one block out, and the
    blocks that are out, `l`, are the cached map.  Every call keeps it
    (`HoldsMap.initMemoryMap`), so every sequence of calls does (`poolRun_holds`).
-/
import Mathlib.Data.List.Induction
import Mathlib.Logic.Relation
import Mathlib.Tactic.SplitIfs
import UefiNexus.NexusMemLib.Pool
import UefiNexus.Proof.InitMemoryMap

namespace UefiNexus

namespace PoolLib

variable {s : PoolLib} {allocatePool : AllocatePool} {bs : BootServices}

/-! ## The calls, with the map as a value -/

@[simp] theorem freeMap_gMemMap (s : PoolLib) : s.freeMap.gMemMap = 0 := by
  unfold freeMap
  split_ifs with h
  · exact h
  · rfl

theorem memLib_null (h : s.gMemMap = 0) : s.memLib.gMemMap = none := if_pos h

theorem memLib_map (h : s.gMemMap ≠ 0) : s.memLib.gMemMap = some (s.buffers s.gMemMap) := if_neg h

theorem memLib_freeMap (s : PoolLib) : s.freeMap.memLib = { s.memLib with gMemMap := none } := by
  unfold freeMap
  split_ifs with h
  · rw [← memLib_null h]
  · rfl

/-- Without a map, `GetMemoryMap` is passed `NULL`. -/
theorem getMap_null (service : GetMemoryMap) (h : s.gMemMap = 0) :
    getMap service s = ((service s.gMemMapSize none).status,
      { s with
        gMemMapSize := (service s.gMemMapSize none).memoryMapSize
        gDescSize := (service s.gMemMapSize none).descriptorSize }) := by
  unfold getMap
  dsimp only
  rw [if_pos h, memLib_null h]

/-- What `GetMemoryMap` does to the variables, with the map as a value. -/
def getMapOf (service : GetMemoryMap) (lib : MemLib) : EfiStatus × MemLib :=
  ((service lib.gMemMapSize lib.gMemMap).status,
    { lib with
      gMemMap := lib.gMemMap.map fun _ => (service lib.gMemMapSize lib.gMemMap).memoryMap
      gMemMapSize := (service lib.gMemMapSize lib.gMemMap).memoryMapSize
      gDescSize := (service lib.gMemMapSize lib.gMemMap).descriptorSize })

theorem getMapOf_memLib (service : GetMemoryMap) (s : PoolLib) :
    getMapOf service s.memLib = ((getMap service s).1, (getMap service s).2.memLib) := by
  symm
  by_cases h : s.gMemMap = 0
  · rw [getMap_null service h, getMapOf, memLib_null h]
    refine Prod.ext rfl ?_
    show MemLib.mk (if s.gMemMap = 0 then _ else _) _ _ _ _ = _
    rw [if_pos h]
    rfl
  · unfold getMap getMapOf
    dsimp only
    rw [if_neg h, memLib_map h]
    refine Prod.ext rfl ?_
    show MemLib.mk (if s.gMemMap = 0 then _ else _) _ _ _ _ = _
    rw [if_neg h]
    simp [memLib]

/-- What `AllocatePool` stores after the events `es`. -/
def stored (allocatePool : AllocatePool) (es : List (Pool.Event NxU64)) (size : NxUintn) :
    EfiStatus × Option Buffer :=
  ((allocatePool es size).1,
    if (allocatePool es size).2.1 = 0 then none else some (allocatePool es size).2.2)

/-- What `AllocatePool` does to the variables, with the map as a value. -/
def allocMapOf (stored : NxUintn → EfiStatus × Option Buffer) (lib : MemLib) :
    EfiStatus × MemLib :=
  ((stored lib.gMemMapSize).1, { lib with gMemMap := (stored lib.gMemMapSize).2 })

theorem allocMapOf_memLib (allocatePool : AllocatePool) (s : PoolLib) :
    allocMapOf (stored allocatePool s.events) s.memLib =
      ((allocMap allocatePool s).1, (allocMap allocatePool s).2.memLib) := by
  unfold allocMap allocMapOf
  dsimp only
  split_ifs
  · simp only [memLib, stored, ↓reduceIte]
    rfl
  · simp only [memLib, stored, ↓reduceIte]
    rfl

theorem memLib_locate (bs : BootServices) (s : PoolLib) :
    (locate bs s).memLib = locateMemoryAttributeProtocol bs s.memLib := by
  unfold locateMemoryAttributeProtocol locate memLib
  dsimp only
  unfold locateMemoryAttributeProtocol
  dsimp only
  split_ifs <;> rfl

theorem events_sized (sizing : GetMemoryMap) (s : PoolLib) :
    (getMap sizing s.freeMap).2.events = s.freeMap.events := by
  rw [getMap_null sizing s.freeMap_gMemMap]

/-- The services during a call, without the pointers. -/
def services (allocatePool : AllocatePool) (sizing filling : GetMemoryMap) (s : PoolLib) :
    MapServices where
  sizing := sizing
  allocatePool := stored allocatePool s.freeMap.events
  filling := filling

/-- `initMemoryMap`, by its calls. -/
theorem initMemoryMap_eq (bs : BootServices) (services : MapServices) (lib : MemLib) :
    UefiNexus.initMemoryMap bs services lib =
      (let r₁ := getMapOf services.sizing { lib with gMemMap := none }
      if r₁.1 ≠ efiBufferTooSmall then r₁
      else
        let r₂ := allocMapOf services.allocatePool
          { r₁.2 with gMemMapSize := r₁.2.gMemMapSize + r₁.2.gDescSize * 2 }
        if efiError r₂.1 then r₂
        else
          let r₃ := getMapOf services.filling r₂.2
          if efiError r₃.1 then r₃ else (r₃.1, locateMemoryAttributeProtocol bs r₃.2)) := rfl

/-- **`InitMemoryMap` on pointers is `initMemoryMap`.** -/
theorem memLib_initMemoryMap (bs : BootServices) (allocatePool : AllocatePool)
    (sizing filling : GetMemoryMap) (s : PoolLib) :
    UefiNexus.initMemoryMap bs (s.services allocatePool sizing filling) s.memLib =
      ((s.initMemoryMap bs allocatePool sizing filling).1,
        (s.initMemoryMap bs allocatePool sizing filling).2.memLib) := by
  have hsizing := getMapOf_memLib sizing s.freeMap
  have hevents := events_sized sizing s
  rw [initMemoryMap_eq, ← memLib_freeMap]
  unfold initMemoryMap services
  rcases hs₁ : getMap sizing s.freeMap with ⟨status₁, s₁⟩
  rw [hs₁] at hsizing hevents
  rw [hsizing]
  dsimp only
  by_cases h₁ : status₁ ≠ efiBufferTooSmall
  · simp only [if_pos h₁]
  simp only [if_neg h₁]
  have halloc := allocMapOf_memLib allocatePool
    { s₁ with gMemMapSize := s₁.gMemMapSize + s₁.gDescSize * 2 }
  rcases hs₂ : allocMap allocatePool { s₁ with gMemMapSize := s₁.gMemMapSize + s₁.gDescSize * 2 }
    with ⟨status₂, s₂⟩
  rw [hs₂, hevents] at halloc
  have hstored : allocMapOf (stored allocatePool s.freeMap.events) { s₁.memLib with
      gMemMapSize := s₁.memLib.gMemMapSize + s₁.memLib.gDescSize * 2 } = (status₂, s₂.memLib) := halloc
  rw [hstored]
  dsimp only
  by_cases h₂ : efiError status₂ = true
  · simp only [if_pos h₂]
  simp only [if_neg h₂]
  rw [getMapOf_memLib filling s₂]
  by_cases h₃ : efiError (getMap filling s₂).1 = true
  · simp only [if_pos h₃]
  · simp only [if_neg h₃, memLib_locate]

theorem memLib_queryMemoryAccess (bs : BootServices) (baseAddress length : NxU64) (s : PoolLib) :
    (s.queryMemoryAccess bs baseAddress length).memLib =
      (UefiNexus.queryMemoryAccess bs s.memLib baseAddress length).2.2 := by
  unfold queryMemoryAccess
  rcases query_lib bs s.memLib baseAddress length with h | h
  · rw [h]
    rfl
  · rw [h]
    exact memLib_locate bs s

end PoolLib

/-! ## The blocks that are out -/

/-- The events are no misuse, and the blocks `l` that are out are the cached map. -/
structure HoldsMap (s : PoolLib) (l : List (NxU64 × ℕ)) : Prop where
  run : Pool.Run 1 [] s.events l
  map : (s.gMemMap = 0 ∧ l = []) ∨ s.gMemMap ≠ 0 ∧ ∃ size, l = [(s.gMemMap, size)]

namespace HoldsMap

variable {s : PoolLib} {l : List (NxU64 × ℕ)} {allocatePool : AllocatePool} {bs : BootServices}

theorem nil_of_null (h : HoldsMap s l) (hnull : s.gMemMap = 0) : l = [] := by
  rcases h.map with ⟨-, rfl⟩ | ⟨hne, -⟩
  · rfl
  · exact absurd hnull hne

/-- A cached map is given back once. -/
theorem freeMap (h : HoldsMap s l) : HoldsMap s.freeMap [] := by
  refine ⟨?_, Or.inl ⟨s.freeMap_gMemMap, rfl⟩⟩
  unfold PoolLib.freeMap
  split_ifs with hnull
  · have hl := h.nil_of_null hnull
    subst hl
    exact h.run
  · rcases h.map with ⟨hnull', -⟩ | ⟨-, size, rfl⟩
    · exact absurd hnull' hnull
    · have hnext : Pool.next [(s.gMemMap, size)] (.free s.gMemMap) = [] := by simp [Pool.next]
      have hrun := h.run.concat (e := .free s.gMemMap) (by simp)
        ⟨_, List.mem_singleton_self _, rfl⟩ (by simp [hnext])
      rwa [hnext] at hrun

/-- An allocation takes a block, or none. -/
theorem allocMap (hpool : PoolDocumented allocatePool) (hnull : FailsWithNull allocatePool s.events)
    (h : HoldsMap s []) :
    (efiError (s.allocMap allocatePool).1 = true ∧ HoldsMap (s.allocMap allocatePool).2 []) ∨
      HoldsMap (s.allocMap allocatePool).2
        [((s.allocMap allocatePool).2.gMemMap, s.gMemMapSize.toNat)] ∧
      (s.allocMap allocatePool).2.gMemMap ≠ 0 ∧
      (s.allocMap allocatePool).2.gMemMapSize = s.gMemMapSize := by
  unfold PoolLib.allocMap
  dsimp only
  split_ifs with herr
  · exact Or.inl ⟨herr, h.run, Or.inl ⟨hnull _ herr, rfl⟩⟩
  · have hok : efiError (allocatePool s.events s.gMemMapSize).1 = false := by simpa using herr
    obtain ⟨hne, -⟩ := hpool.fresh _ _ hok
    refine Or.inr ⟨⟨?_, Or.inr ⟨hne, _, rfl⟩⟩, hne, rfl⟩
    refine h.run.concat ?_ ?_ ?_
    · simp
    · simp [Pool.Ok]
    · simp [Pool.next]

/-- A buffer is passed with its size. -/
theorem getMap {size : ℕ} (service : GetMemoryMap) (h : HoldsMap s [(s.gMemMap, size)])
    (hne : s.gMemMap ≠ 0) (hsize : s.gMemMapSize.toNat ≤ size) :
    HoldsMap (s.getMap service).2 [(s.gMemMap, size)] ∧
      (s.getMap service).2.gMemMap = s.gMemMap := by
  unfold PoolLib.getMap
  dsimp only
  rw [if_neg hne]
  refine ⟨⟨?_, Or.inr ⟨hne, size, rfl⟩⟩, rfl⟩
  refine h.run.concat (e := .use s.gMemMap s.gMemMapSize.toNat) ?_ ?_ ?_
  · simp
  · exact ⟨_, List.mem_singleton_self _, rfl, hsize⟩
  · simp [Pool.next]

/-- **A call of `InitMemoryMap`** keeps the invariant. -/
theorem initMemoryMap (hpool : PoolDocumented allocatePool)
    (hnull : FailsWithNull allocatePool s.freeMap.events) (sizing filling : GetMemoryMap)
    (h : HoldsMap s l) : ∃ l', HoldsMap (s.initMemoryMap bs allocatePool sizing filling).2 l' := by
  have hfree := h.freeMap
  unfold PoolLib.initMemoryMap
  rw [PoolLib.getMap_null sizing s.freeMap_gMemMap]
  dsimp only
  by_cases hsmall : (sizing s.freeMap.gMemMapSize none).status ≠ efiBufferTooSmall
  · rw [if_pos hsmall]
    exact ⟨[], hfree.run, Or.inl ⟨s.freeMap_gMemMap, rfl⟩⟩
  rw [if_neg hsmall]
  obtain ⟨u, hu⟩ : ∃ u : PoolLib, u = { s.freeMap with
      gMemMapSize := (sizing s.freeMap.gMemMapSize none).memoryMapSize +
        (sizing s.freeMap.gMemMapSize none).descriptorSize * 2
      gDescSize := (sizing s.freeMap.gMemMapSize none).descriptorSize } := ⟨_, rfl⟩
  have hheld : HoldsMap u [] := by
    rw [hu]
    exact ⟨hfree.run, Or.inl ⟨s.freeMap_gMemMap, rfl⟩⟩
  have hevents : u.events = s.freeMap.events := by rw [hu]
  rw [← hu]
  rcases hheld.allocMap hpool (hevents ▸ hnull) with ⟨herr, hout⟩ | ⟨hout, hne, hsize⟩
  · rw [if_pos herr]
    exact ⟨[], hout⟩
  · split_ifs with herr hfill
    · exact ⟨_, hout⟩
    · exact ⟨_, (hout.getMap filling hne (Nat.le_of_eq (congrArg BitVec.toNat hsize))).1⟩
    · obtain ⟨hrun, hmap⟩ := (hout.getMap filling hne (Nat.le_of_eq (congrArg BitVec.toNat hsize))).1
      exact ⟨_, hrun, hmap⟩

end HoldsMap

/-! ## Sequences of calls -/

section
variable {bs : BootServices} {allocatePool : AllocatePool}

theorem PoolLib.serve_holds (hpool : PoolDocumented allocatePool) (call : LibCall) {s : PoolLib}
    (hnull : FailsWithNull allocatePool s.freeMap.events) {l : List (NxU64 × ℕ)}
    (h : HoldsMap s l) :
    ∃ l', HoldsMap (s.serve bs allocatePool call) l' := by
  cases call with
  | initMemoryMap sizing filling => exact h.initMemoryMap hpool hnull sizing filling
  | queryMemoryAccess baseAddress length => exact ⟨l, h.run, h.map⟩

theorem poolRun_concat (calls : List LibCall) (call : LibCall) :
    poolRun bs allocatePool (calls ++ [call]) =
      (poolRun bs allocatePool calls).serve bs allocatePool call := by
  simp [poolRun]

theorem poolRun_holds (hpool : PoolDocumented allocatePool)
    (hnull : ∀ calls, FailsWithNull allocatePool (poolRun bs allocatePool calls).freeMap.events)
    (calls : List LibCall) : ∃ l, HoldsMap (poolRun bs allocatePool calls) l := by
  induction calls using List.reverseRecOn with
  | nil => exact ⟨[], .nil (Nat.zero_le 1), Or.inl ⟨rfl, rfl⟩⟩
  | append_singleton calls call ih =>
    obtain ⟨l, h⟩ := ih
    rw [poolRun_concat]
    exact PoolLib.serve_holds hpool call (hnull calls) h

/-- A call, with the map as a value. -/
inductive LibStep (bs : BootServices) : MemLib → MemLib → Prop where
  | initMemoryMap (services : MapServices) (lib : MemLib) :
    LibStep bs lib (initMemoryMap bs services lib).2
  | queryMemoryAccess (baseAddress length : NxU64) (lib : MemLib) :
    LibStep bs lib (queryMemoryAccess bs lib baseAddress length).2.2

/-- **The pointers refine the value**: a sequence of calls on pointers is one on the
    map. -/
theorem poolRun_refines (bs : BootServices) (allocatePool : AllocatePool) (calls : List LibCall) :
    Relation.ReflTransGen (LibStep bs) MemLib.initial (poolRun bs allocatePool calls).memLib := by
  induction calls using List.reverseRecOn with
  | nil => exact .refl
  | append_singleton calls call ih =>
    rw [poolRun_concat]
    refine ih.tail ?_
    cases call with
    | initMemoryMap sizing filling =>
      have hinit := (poolRun bs allocatePool calls).memLib_initMemoryMap bs allocatePool sizing filling
      have hstep : LibStep bs (poolRun bs allocatePool calls).memLib
          (initMemoryMap bs ((poolRun bs allocatePool calls).services allocatePool sizing filling)
            (poolRun bs allocatePool calls).memLib).2 := .initMemoryMap _ _
      rwa [hinit] at hstep
    | queryMemoryAccess baseAddress length =>
      have hstep : LibStep bs (poolRun bs allocatePool calls).memLib
          (queryMemoryAccess bs (poolRun bs allocatePool calls).memLib baseAddress length).2.2 :=
        .queryMemoryAccess _ _ _
      rwa [← PoolLib.memLib_queryMemoryAccess] at hstep

end

/-- The library deals with the pool as its owner: no block is misused, at most one is
    out at any time, and the block that is out is the cached map. -/
structure PoolOwned (s : PoolLib) : Prop where
  ok : ∀ es e fs, s.events = es ++ e :: fs → Pool.Ok (Pool.live es) e
  one : ∀ es fs, s.events = es ++ fs → (Pool.live es).length ≤ 1
  null : s.gMemMap = 0 → Pool.live s.events = []
  map : s.gMemMap ≠ 0 → ∃ size, Pool.live s.events = [(s.gMemMap, size)]

/-- The blocks that are out are the cached map, so it is owned. -/
theorem HoldsMap.owned {s : PoolLib} {l : List (NxU64 × ℕ)} (h : HoldsMap s l) : PoolOwned s := by
  obtain ⟨hrun, hmap⟩ := h
  refine ⟨?_, ?_, fun hnull => ?_, fun hne => ?_⟩
  · intro es e fs hevents
    rw [hevents] at hrun
    exact hrun.ok
  · intro es fs hevents
    rw [hevents] at hrun
    exact hrun.peak
  · rw [hrun.live_eq]
    rcases hmap with ⟨-, rfl⟩ | ⟨hne, -⟩
    · rfl
    · exact absurd hnull hne
  · rw [hrun.live_eq]
    rcases hmap with ⟨hnull, -⟩ | ⟨-, hl⟩
    · exact absurd hnull hne
    · exact hl

/-- After `FreePool` nothing is out. -/
theorem PoolOwned.freeMap {s : PoolLib} (h : PoolOwned s) : Pool.live s.freeMap.events = [] := by
  unfold PoolLib.freeMap
  split_ifs with hnull
  · exact h.null hnull
  · obtain ⟨size, hlive⟩ := h.map hnull
    show Pool.live (s.events ++ [.free s.gMemMap]) = []
    rw [Pool.live, List.foldl_append, ← Pool.live, hlive]
    simp [Pool.next]

section
variable {bs : BootServices} {allocatePool : AllocatePool}

/-- The service that asks for a buffer of this size. -/
def asksFor (size : NxUintn) : GetMemoryMap := fun _ _ => ⟨efiBufferTooSmall, size, fun _ => 0, 0⟩

/-- An `InitMemoryMap` whose `AllocatePool` fails leaves the pointer it has stored. -/
theorem PoolLib.initMemoryMap_failed (bs : BootServices) (s : PoolLib) {size : NxUintn}
    (filling : GetMemoryMap) (herr : efiError (allocatePool s.freeMap.events size).1 = true) :
    (s.initMemoryMap bs allocatePool (asksFor size) filling).2.gMemMap =
        (allocatePool s.freeMap.events size).2.1 ∧
      (s.initMemoryMap bs allocatePool (asksFor size) filling).2.events = s.freeMap.events := by
  have hsize : size + 0 * 2 = size := by simp
  unfold PoolLib.initMemoryMap PoolLib.allocMap
  rw [PoolLib.getMap_null (asksFor size) s.freeMap_gMemMap]
  simp only [asksFor, ne_eq, not_true_eq_false, if_false, hsize, herr, if_true, and_self]

/-- **Who owns the pool's blocks.**  With a pool that hands out blocks that are not out,
    the following holds after every sequence of `InitMemoryMap` and `QueryMemoryAccess`,
    whatever `GetMemoryMap` answers, if and only if an `AllocatePool` that fails in the
    next `InitMemoryMap` always stores `NULL`: no block has been freed twice, or used
    after it was freed or beyond its size, at most one block has been out at any time,
    and the block that is out is the cached map. -/
theorem pool_owned (bs : BootServices) (allocatePool : AllocatePool)
    (hpool : PoolDocumented allocatePool) :
    (∀ calls, PoolOwned (poolRun bs allocatePool calls)) ↔
      ∀ calls, FailsWithNull allocatePool (poolRun bs allocatePool calls).freeMap.events := by
  constructor
  · intro howned calls size herr
    by_contra hne
    -- the next `InitMemoryMap` keeps a pointer to a block that is not out
    obtain ⟨hpointer, hevents⟩ := (poolRun bs allocatePool calls).initMemoryMap_failed bs
      (asksFor size) herr
    have hnext := howned (calls ++ [.initMemoryMap (asksFor size) (asksFor size)])
    rw [poolRun_concat, PoolLib.serve] at hnext
    rw [← hpointer] at hne
    obtain ⟨_, hlive⟩ := hnext.map hne
    rw [hevents, (howned calls).freeMap] at hlive
    cases hlive
  · intro hnull calls
    obtain ⟨l, h⟩ := poolRun_holds hpool hnull calls
    exact h.owned

end

/-- A pool with room for one block, which stores `NULL` when it fails. -/
def oneBlockPool : AllocatePool := fun events _ =>
  if Pool.live events = [] then (efiSuccess, 0x5000, fun _ => 0xAF)
  else (encodeError 9, 0, fun _ => 0)

theorem oneBlockPool_documented : PoolDocumented oneBlockPool where
  fresh events size h := by
    unfold oneBlockPool at h ⊢
    split_ifs at h ⊢ with hlive
    · refine ⟨by decide, ?_⟩
      rw [hlive]
      simp
    · cases h

theorem oneBlockPool_failsWithNull (events : List (Pool.Event NxU64)) :
    FailsWithNull oneBlockPool events := by
  intro size h
  unfold oneBlockPool at h ⊢
  split_ifs at h ⊢ with hlive
  · cases h
  · rfl

/-- A pool that fails and leaves some pointer. -/
def emptyPool : AllocatePool := fun _ _ => (encodeError 9, 0x5000, fun _ => 0)

theorem emptyPool_documented : PoolDocumented emptyPool where
  fresh events size h := by
    have hok : efiError (encodeError 9) = false := h
    exact absurd hok (by decide)

/-- The service with a map of one page. -/
def onePageService : GetMemoryMap :=
  (FirmwareMap.ofDescriptors [⟨7, 0x1000, 1, 0⟩] FirmwareMap.onePage_fits).getMemoryMap

/-- Two initializations, with a query between them. -/
def initTwice : List LibCall :=
  [.initMemoryMap onePageService onePageService, .queryMemoryAccess 0x1000 4,
    .initMemoryMap onePageService onePageService]

/-- Two initializations over the first pool; over the second one, the second of them
    frees a block that was never out. -/
theorem pool_owned_twice :
    PoolOwned (poolRun ⟨efiNotFound, none⟩ oneBlockPool initTwice) ∧
      (poolRun ⟨efiNotFound, none⟩ oneBlockPool initTwice).events =
        [.alloc 0x5000 144, .use 0x5000 144, .free 0x5000] ∧
      (¬ ∀ calls, PoolOwned (poolRun ⟨efiNotFound, none⟩ emptyPool calls)) ∧
      (poolRun ⟨efiNotFound, none⟩ emptyPool initTwice).events = [.free 0x5000] := by
  refine ⟨?_, by decide, fun howned => ?_, by decide⟩
  · exact (pool_owned ⟨efiNotFound, none⟩ oneBlockPool oneBlockPool_documented).2
      (fun _ => oneBlockPool_failsWithNull _) initTwice
  · have hnull := (pool_owned ⟨efiNotFound, none⟩ emptyPool emptyPool_documented).1 howned []
    exact absurd (hnull 0 rfl) (by decide)

end UefiNexus
