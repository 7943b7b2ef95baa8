/-
  `InitMemoryMap` over the calls of one boot.

  `gMemMapSize` outlives a call: the next call passes it to `GetMemoryMap` with a
  `NULL` buffer, so that the firmware answers `EFI_BUFFER_TOO_SMALL` only if its
  map has outgrown the one cached before (`initMemoryMap_of_lt`,
  `initMemoryMap_of_le`).  Hence all calls succeed exactly if the map always has
  (`all_succeed_iff`); with a map that stays the same the second call fails.
-/
import UefiNexus.NexusMemLib.Firmware
import UefiNexus.Proof.Access

namespace UefiNexus

/-- The cached map is exactly the firmware's. -/
structure Caches (lib : MemLib) (m : FirmwareMap) : Prop where
  memMap : ∃ buffer, lib.gMemMap = some buffer ∧ ∀ i < m.size, buffer i = m.bytes i
  size : lib.gMemMapSize.toNat = m.size
  descSize : lib.gDescSize = m.descriptorSize

/-- One call of `InitMemoryMap`: the firmware's map at its two calls of
    `GetMemoryMap`, a pool that does not run out, and the ranges whose access is
    queried before the next call.  The map needs at most two more descriptors at
    the second call than at the first. -/
structure InitCall where
  sizing : FirmwareMap
  filling : FirmwareMap
  services : MapServices
  documents_sizing : sizing.Documents services.sizing
  documents_filling : filling.Documents services.filling
  allocates : ∀ n, efiError (services.allocatePool n).1 = false ∧
    (services.allocatePool n).2.isSome
  slack : filling.size ≤ sizing.size + 2 * sizing.descriptorSize.toNat
  queries : List (NxU64 × NxU64)

/-- The library after the queries. -/
def afterQueries (bs : BootServices) (queries : List (NxU64 × NxU64)) (lib : MemLib) : MemLib :=
  queries.foldl (fun lib q => (queryMemoryAccess bs lib q.1 q.2).2.2) lib

/-- Every call succeeds, and caches the firmware's map. -/
def AllSucceed (bs : BootServices) : MemLib → List InitCall → Prop
  | _, [] => True
  | lib, call :: calls =>
    ((initMemoryMap bs call.services lib).1 = efiSuccess ∧
      Caches (initMemoryMap bs call.services lib).2 call.filling) ∧
    AllSucceed bs (afterQueries bs call.queries (initMemoryMap bs call.services lib).2) calls

/-- Every call finds a map of more bytes than the call before has cached, the
    first one a map of more than `n`. -/
def Outgrows : ℕ → List InitCall → Prop
  | _, [] => True
  | n, call :: calls => n < call.sizing.size ∧ Outgrows call.filling.size calls

/-! ## One call -/

section
variable {bs : BootServices} {lib : MemLib}

theorem locate_caches {m : FirmwareMap} (h : Caches lib m) :
    Caches (locateMemoryAttributeProtocol bs lib) m := by
  rw [locateMemoryAttributeProtocol]
  split_ifs
  · exact h
  all_goals exact ⟨h.memMap, h.size, h.descSize⟩

/-- A map larger than the stale size is cached. -/
theorem initMemoryMap_of_lt (call : InitCall) (h : lib.gMemMapSize.toNat < call.sizing.size) :
    (initMemoryMap bs call.services lib).1 = efiSuccess ∧
      Caches (initMemoryMap bs call.services lib).2 call.filling := by
  obtain ⟨hs, hn, hd⟩ := call.documents_sizing.tooSmall lib.gMemMapSize none h
  have hfits := call.sizing.fits
  have hsize : call.filling.size ≤
      ((call.services.sizing lib.gMemMapSize none).memoryMapSize +
        (call.services.sizing lib.gMemMapSize none).descriptorSize * 2).toNat := by
    have := call.slack
    rw [hd]
    bv_omega
  obtain ⟨hpool, hsome⟩ := call.allocates
    ((call.services.sizing lib.gMemMapSize none).memoryMapSize +
      (call.services.sizing lib.gMemMapSize none).descriptorSize * 2)
  obtain ⟨buffer, hbuffer⟩ := Option.isSome_iff_exists.1 hsome
  simp only [initMemoryMap, hs, ne_eq, not_true_eq_false, if_false, hpool, hbuffer,
    Bool.false_eq_true, Option.map_some]
  obtain ⟨hfs, hfn, hfd, hfb⟩ := call.documents_filling.fills _ buffer hsize
  have hok : ¬ efiError efiSuccess = true := by decide
  rw [hfs, if_neg hok]
  exact ⟨rfl, locate_caches ⟨⟨_, rfl, hfb⟩, hfn, hfd⟩⟩

/-- A map not larger than the stale size makes the first `GetMemoryMap` fail. -/
theorem initMemoryMap_of_le (call : InitCall) (h : call.sizing.size ≤ lib.gMemMapSize.toNat) :
    (initMemoryMap bs call.services lib).1 = efiInvalidParameter := by
  have hs := call.documents_sizing.noBuffer lib.gMemMapSize h
  have hne : efiInvalidParameter ≠ efiBufferTooSmall := by decide
  simp only [initMemoryMap, hs, ne_eq, hne, not_false_eq_true, if_true]

theorem initMemoryMap_succeeds_iff (call : InitCall) :
    ((initMemoryMap bs call.services lib).1 = efiSuccess ∧
      Caches (initMemoryMap bs call.services lib).2 call.filling) ↔
    lib.gMemMapSize.toNat < call.sizing.size := by
  rcases Nat.lt_or_ge lib.gMemMapSize.toNat call.sizing.size with h | h
  · exact iff_of_true (initMemoryMap_of_lt call h) h
  · refine iff_of_false ?_ (by omega)
    rintro ⟨hok, -⟩
    rw [initMemoryMap_of_le call h] at hok
    exact absurd hok (by decide)

/-! ## The calls of a boot -/

variable (bs) in
/-- A query does no more than locating the protocol. -/
theorem query_lib (lib : MemLib) (a n : NxU64) :
    (queryMemoryAccess bs lib a n).2.2 = lib ∨
      (queryMemoryAccess bs lib a n).2.2 = locateMemoryAttributeProtocol bs lib := by
  simp only [queryMemoryAccess, ite_located]
  by_cases hguard : n = 0 ∨ a > maxUint64 - n
  · rw [if_pos hguard]
    exact Or.inl rfl
  rw [if_neg hguard]
  cases findDescriptorForRange lib a n with
  | none => exact Or.inl rfl
  | some desc =>
    refine Or.inr ?_
    cases (locateMemoryAttributeProtocol bs lib).gMemoryAttributeProtocol with
    | none => rfl
    | some getMemoryAttributes =>
      dsimp only
      split_ifs <;> rfl

variable (bs) in
theorem query_keeps (lib : MemLib) (a n : NxU64) :
    (queryMemoryAccess bs lib a n).2.2.gMemMap = lib.gMemMap ∧
      (queryMemoryAccess bs lib a n).2.2.gMemMapSize = lib.gMemMapSize := by
  have hlocate : (locateMemoryAttributeProtocol bs lib).gMemMap = lib.gMemMap ∧
      (locateMemoryAttributeProtocol bs lib).gMemMapSize = lib.gMemMapSize := by
    rw [locateMemoryAttributeProtocol]
    split_ifs <;> exact ⟨rfl, rfl⟩
  obtain h | h := query_lib bs lib a n
  · rw [h]
    exact ⟨rfl, rfl⟩
  · rw [h]
    exact hlocate

theorem afterQueries_keeps (queries : List (NxU64 × NxU64)) (lib : MemLib) :
    (afterQueries bs queries lib).gMemMap = lib.gMemMap ∧
      (afterQueries bs queries lib).gMemMapSize = lib.gMemMapSize := by
  induction queries generalizing lib with
  | nil => exact ⟨rfl, rfl⟩
  | cons q queries ih =>
    obtain ⟨hmap, hsize⟩ := query_keeps bs lib q.1 q.2
    rw [afterQueries, List.foldl_cons, ← afterQueries, (ih _).1, (ih _).2]
    exact ⟨hmap, hsize⟩

theorem allSucceed_iff_outgrows (calls : List InitCall) (lib : MemLib) :
    AllSucceed bs lib calls ↔ Outgrows lib.gMemMapSize.toNat calls := by
  induction calls generalizing lib with
  | nil => exact Iff.rfl
  | cons call calls ih =>
    rw [AllSucceed, Outgrows, initMemoryMap_succeeds_iff]
    refine and_congr_right fun h => ?_
    rw [ih, (afterQueries_keeps _ _).2, (initMemoryMap_of_lt call h).2.size]

end

/-- **Initialization over one boot.**  Every call of `InitMemoryMap` succeeds and
    caches the firmware's map exactly if every call finds a map of more bytes
    than the call before has cached (the first one, a map that is not empty). -/
theorem all_succeed_iff (bs : BootServices) (calls : List InitCall) :
    AllSucceed bs .initial calls ↔ Outgrows 0 calls :=
  allSucceed_iff_outgrows calls .initial

/-- A firmware whose map is one page of conventional memory all along. -/
def onePageCall : InitCall where
  sizing := .ofDescriptors [⟨7, 0x1000, 1, 0⟩] FirmwareMap.onePage_fits
  filling := .ofDescriptors [⟨7, 0x1000, 1, 0⟩] FirmwareMap.onePage_fits
  services := standardServices (.ofDescriptors [⟨7, 0x1000, 1, 0⟩] FirmwareMap.onePage_fits)
  documents_sizing := FirmwareMap.documents_getMemoryMap _
  documents_filling := FirmwareMap.documents_getMemoryMap _
  allocates _ := ⟨(by decide : efiError efiSuccess = false), rfl⟩
  slack := by simp
  queries := []

/-- The second initialization of a boot fails, though the map has not changed. -/
theorem second_init_fails :
    ¬ AllSucceed ⟨efiNotFound, none⟩ .initial [onePageCall, onePageCall] ∧
    (initMemoryMap ⟨efiNotFound, none⟩ onePageCall.services .initial).1 = efiSuccess ∧
    (initMemoryMap ⟨efiNotFound, none⟩ onePageCall.services
      (initMemoryMap ⟨efiNotFound, none⟩ onePageCall.services .initial).2).1 =
        efiInvalidParameter := by
  have h2 : (initMemoryMap ⟨efiNotFound, none⟩ onePageCall.services
      (initMemoryMap ⟨efiNotFound, none⟩ onePageCall.services .initial).2).1 =
        efiInvalidParameter := by decide
  refine ⟨?_, by decide, h2⟩
  rintro ⟨-, ⟨hok, -⟩, -⟩
  exact absurd (h2.symm.trans hok) (by decide)

end UefiNexus
