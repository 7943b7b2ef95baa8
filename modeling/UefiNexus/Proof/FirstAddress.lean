/-
  The first address of the map, where PageMem opens.

  The Core returns the start of the first descriptor of a browsable type, also
  when it is empty, overflows, or lies above others; NexusMemLib takes the least
  start of the proper descriptors.

  * `Live desc`: the descriptor has an address that the Core accepts, and then its
    start is one; `Lowest ds r`: `r` is the least address accepted;
  * `Proper desc`: the same over the natural numbers, which is NexusMemLib's test;
  * `first_address_iff`: the maps for which the two functions return the lowest
    address, and PageMem opens on a page of the map.
-/
import Mathlib.Data.List.Forall2
import UefiNexus.Proof.Keys
import UefiNexus.Proof.PageNavigation
import UefiNexus.Proof.Terminal

namespace UefiNexus

open Align (PowTwo)

/-! ## Descriptors -/

/-- The descriptor has an address, for the Core. -/
def Live (desc : NxMemoryDescriptor) : Prop := HoldsRange desc desc.physicalStart.toNat 1

/-- The descriptor is browsable and not empty, and its extent ends below `2 ^ 64`. -/
structure Proper (desc : NxMemoryDescriptor) : Prop where
  type : isDescriptorValid desc = true
  pages : 0 < desc.numberOfPages.toNat
  end_lt : desc.physicalStart.toNat + desc.numberOfPages.toNat * 4096 < 2 ^ 64

/-- A descriptor of NexusMemLib and one of the Core with the same extent, both
    browsable or neither. -/
structure SameDescriptor (efi : EfiMemoryDescriptor) (desc : NxMemoryDescriptor) : Prop where
  type : isMemoryTypeBrowsable efi.type = isDescriptorValid desc
  start : efi.physicalStart = desc.physicalStart
  pages : efi.numberOfPages = desc.numberOfPages

theorem sameDescriptor_toCore (efi : EfiMemoryDescriptor) : SameDescriptor efi (toCore efi) :=
  ⟨(isDescriptorValid_toCore efi).symm, rfl, rfl⟩

/-- The copy of a map has its descriptors. -/
theorem forall₂_toCore (efi : List EfiMemoryDescriptor) :
    List.Forall₂ SameDescriptor efi (efi.map toCore) :=
  List.forall₂_map_right_iff.2 (List.forall₂_same.2 fun desc _ => sameDescriptor_toCore desc)

section
variable {desc : NxMemoryDescriptor}

theorem HoldsRange.live {q n : ℕ} (h : HoldsRange desc q n) (hn : 0 < n) : Live desc := by
  obtain ⟨htype, hstart, hend, hlt⟩ := h
  exact ⟨htype, Nat.le_refl _, by omega, hlt⟩

theorem Proper.live (h : Proper desc) : Live desc := by
  obtain ⟨htype, hpages, hend⟩ := h
  have hsize : (desc.numberOfPages <<< 12).toNat = desc.numberOfPages.toNat * 4096 := by
    rw [toNat_shift]
    exact Nat.mod_eq_of_lt (by omega)
  refine ⟨htype, Nat.le_refl _, ?_, ?_⟩ <;> rw [hsize]
  · omega
  · exact hend

/-- A descriptor with an address has `4096`. -/
theorem Live.room (h : Live desc) : HoldsRange desc desc.physicalStart.toNat 4096 := by
  obtain ⟨htype, hstart, hend, hlt⟩ := h
  have hdvd : 4096 ∣ (desc.numberOfPages <<< 12).toNat := by
    have hword : 4096 ∣ 2 ^ 64 := ⟨2 ^ 52, rfl⟩
    rw [toNat_shift, Nat.dvd_mod_iff hword]
    exact Nat.dvd_mul_left _ _
  have hsize : 4096 ≤ (desc.numberOfPages <<< 12).toNat := Nat.le_of_dvd (by omega) hdvd
  exact ⟨htype, hstart, by omega, hlt⟩

/-- A part of a range. -/
theorem HoldsRange.mono {q q' n n' : ℕ} (h : HoldsRange desc q n) (hq : q ≤ q')
    (hn : q' + n' ≤ q + n) : HoldsRange desc q' n' := by
  obtain ⟨htype, hstart, hend, hlt⟩ := h
  exact ⟨htype, by omega, by omega, hlt⟩

/-- It has a page. -/
theorem Live.page (h : Live desc) : ∃ q, 256 ∣ q ∧ HoldsRange desc q 256 :=
  ⟨(desc.physicalStart.toNat + 255) / 256 * 256, Nat.dvd_mul_left _ _,
    h.room.mono (by omega) (by omega)⟩

end

/-! ## The addresses of the map -/

section
variable {ds : List NxMemoryDescriptor}

/-- **The addresses the Core accepts.** -/
theorem isAddressValid_iff {a : NxU64} :
    pageCoreIsAddressValid ⟨some ds⟩ a = true ↔ ∃ desc ∈ ds, HoldsRange desc a.toNat 1 := by
  simp only [pageCoreIsAddressValid]
  rw [List.any_eq_true]
  refine exists_congr fun desc => and_congr_right fun _ => ?_
  rw [Bool.and_eq_true, HoldsRange]
  refine and_congr_right fun _ => ?_
  rcases hend : descriptorEnd desc with _ | descEnd
  · refine iff_of_false (by simp) ?_
    rintro ⟨-, -, hlt⟩
    have hsome : descriptorEnd desc = some (desc.physicalStart + desc.numberOfPages <<< 12) :=
      coreEnd_eq_some.2 ⟨hlt, BitVec.toNat_add_of_lt hlt⟩
    rw [hend] at hsome
    cases hsome
  · obtain ⟨hlt, hstop⟩ := coreEnd_eq_some.1 hend
    simp only [ge_iff_le, Bool.and_eq_true, decide_eq_true_eq, BitVec.le_def, BitVec.lt_def, hstop]
    exact ⟨fun h => ⟨h.1, h.2, hlt⟩, fun h => ⟨h.1, h.2.1⟩⟩

/-- There is an address. -/
theorem exists_address_iff :
    (∃ a, pageCoreIsAddressValid ⟨some ds⟩ a = true) ↔ ∃ desc ∈ ds, Live desc := by
  simp only [isAddressValid_iff]
  constructor
  · rintro ⟨a, desc, hmem, h⟩
    exact ⟨desc, hmem, h.live Nat.one_pos⟩
  · rintro ⟨desc, hmem, h⟩
    exact ⟨desc.physicalStart, desc, hmem, h⟩

/-- The lowest start of a descriptor that has an address. -/
structure Lowest (ds : List NxMemoryDescriptor) (r : NxU64) : Prop where
  start : ∃ desc ∈ ds, Live desc ∧ desc.physicalStart = r
  le : ∀ desc ∈ ds, Live desc → r ≤ desc.physicalStart

/-- **It is the lowest address.** -/
theorem lowest_iff {r : NxU64} :
    Lowest ds r ↔ pageCoreIsAddressValid ⟨some ds⟩ r = true ∧
      ∀ a, pageCoreIsAddressValid ⟨some ds⟩ a = true → r ≤ a := by
  simp only [isAddressValid_iff]
  constructor
  · rintro ⟨⟨desc, hmem, hlive, rfl⟩, hle⟩
    refine ⟨⟨desc, hmem, hlive⟩, ?_⟩
    rintro a ⟨desc', hmem', h⟩
    exact BitVec.le_trans (hle desc' hmem' (h.live Nat.one_pos)) h.2.1
  · rintro ⟨⟨desc, hmem, h⟩, hle⟩
    have hlive := h.live Nat.one_pos
    refine ⟨⟨desc, hmem, hlive, ?_⟩, fun desc' hmem' hlive' => hle _ ⟨desc', hmem', hlive'⟩⟩
    exact BitVec.le_antisymm h.2.1 (hle _ ⟨desc, hmem, hlive⟩)

/-- A map with an address has a page. -/
theorem exists_page {desc : NxMemoryDescriptor} (hmem : desc ∈ ds) (h : Live desc) :
    ∃ q, Page ⟨some ds⟩ pageSize q := by
  obtain ⟨q, hdvd, hholds⟩ := h.page
  have hlt := hholds.lt
  have hq : (BitVec.ofNat 64 q).toNat = q := by
    rw [BitVec.toNat_ofNat]
    exact Nat.mod_eq_of_lt (by omega)
  refine ⟨BitVec.ofNat 64 q, (page_iff pageSize_powTwo rfl).2 ?_⟩
  rw [hq]
  exact ⟨hdvd, desc, hmem, hholds⟩

theorem Page.exists_live {q : NxU64} (h : Page ⟨some ds⟩ pageSize q) : ∃ desc ∈ ds, Live desc := by
  obtain ⟨-, desc, hmem, hholds⟩ := (page_iff pageSize_powTwo rfl).1 h
  exact ⟨desc, hmem, hholds.live (by decide)⟩

/-- **The page around the lowest address** belongs to the map if and only if the
    address is its first. -/
theorem Lowest.page_iff {r : NxU64} (h : Lowest ds r) :
    Page ⟨some ds⟩ pageSize (pageCoreAlignToPage r pageSize) ↔ 256 ∣ r.toNat := by
  have halign : pageCoreAlignToPage r pageSize = alignDown r pageSize := rfl
  have hdown := toNat_alignDown pageSize_powTwo r
  rw [halign, UefiNexus.page_iff pageSize_powTwo rfl]
  have hsize : pageSize.toNat = 256 := rfl
  rw [hsize] at hdown ⊢
  constructor
  · rintro ⟨-, desc, hmem, hholds⟩
    -- the descriptor that has the page starts at or below it
    have hle : r.toNat ≤ desc.physicalStart.toNat := h.le desc hmem (hholds.live (by decide))
    have hstart := hholds.2.1
    have hmod : r.toNat % 256 = 0 := by omega
    exact Nat.dvd_of_mod_eq_zero hmod
  · intro hdvd
    obtain ⟨desc, hmem, hlive, rfl⟩ := h.start
    rw [Nat.mod_eq_zero_of_dvd hdvd, Nat.sub_zero] at hdown
    rw [hdown]
    exact ⟨hdvd, desc, hmem, hlive.room.mono (Nat.le_refl _) (by omega)⟩

end

/-! ## NexusMemLib -/

/-- The start of a proper descriptor, for NexusMemLib. -/
def firstCandidate (desc : EfiMemoryDescriptor) : Option NxU64 :=
  if isMemoryTypeBrowsable desc.type ∧ desc.numberOfPages ≠ 0 ∧
      desc.numberOfPages ≤ maxUint64 >>> 12 ∧
      desc.physicalStart ≤ maxUint64 - (desc.numberOfPages <<< 12) then
    some desc.physicalStart
  else none

theorem firstCandidate_eq_some {efi : EfiMemoryDescriptor} {desc : NxMemoryDescriptor}
    (h : SameDescriptor efi desc) {r : NxU64} :
    firstCandidate efi = some r ↔ Proper desc ∧ desc.physicalStart = r := by
  obtain ⟨htype, hstart, hpages⟩ := h
  rw [firstCandidate, htype, hstart, hpages]
  have hproper : (isDescriptorValid desc = true ∧ desc.numberOfPages ≠ 0 ∧
      desc.numberOfPages ≤ maxUint64 >>> 12 ∧
        desc.physicalStart ≤ maxUint64 - (desc.numberOfPages <<< 12)) ↔ Proper desc := by
    simp only [maxUint64]
    constructor
    · rintro ⟨htype, hne, hle, hfits⟩
      exact ⟨htype, by bv_omega, by bv_omega⟩
    · rintro ⟨htype, hpos, hlt⟩
      exact ⟨htype, by bv_omega, by bv_omega, by bv_omega⟩
  by_cases h : Proper desc
  · rw [if_pos (hproper.2 h), Option.some_inj]
    exact ⟨fun hr => ⟨h, hr⟩, And.right⟩
  · rw [if_neg (mt hproper.1 h)]
    exact iff_of_false (by simp) fun hr => h hr.1

/-- The loop keeps the least start. -/
theorem firstAddressStep_eq : firstAddressStep = keepNext firstCandidate := by
  ext1 min
  ext1 desc
  rw [firstAddressStep, keepNext, firstCandidate]
  by_cases hproper : isMemoryTypeBrowsable desc.type ∧ desc.numberOfPages ≠ 0 ∧
      desc.numberOfPages ≤ maxUint64 >>> 12 ∧
      desc.physicalStart ≤ maxUint64 - (desc.numberOfPages <<< 12)
  · simp only [if_pos hproper]
  · simp only [if_neg hproper]

theorem firstAddressStep_isSearch :
    Search.IsSearch (fun _ => True) BitVec.toNat firstCandidate maxUint64 firstAddressStep := by
  rw [firstAddressStep_eq]
  refine keepNext_isSearch fun desc c h => ?_
  rw [firstCandidate] at h
  split_ifs at h with hproper
  obtain rfl := Option.some.inj h
  obtain ⟨-, hne, hle, hfits⟩ := hproper
  simp only [maxUint64] at hle hfits
  bv_omega

section
variable {lib : MemLib} {ds : List NxMemoryDescriptor}

theorem exists_mem_iff_of_forall₂ {α β : Type} {R : α → β → Prop} (P : α → Prop) (Q : β → Prop)
    (hPQ : ∀ a b, R a b → (P a ↔ Q b)) :
    ∀ {l : List α} {l' : List β}, List.Forall₂ R l l' → ((∃ a ∈ l, P a) ↔ ∃ b ∈ l', Q b)
  | [], [], .nil => by simp
  | a :: l, b :: l', .cons h hs => by
    simp only [List.mem_cons, exists_eq_or_imp, hPQ a b h, exists_mem_iff_of_forall₂ P Q hPQ hs]

/-- **NexusMemLib's first address** is the least start of a proper descriptor, and
    0 if there is none. -/
theorem getFirstValidAddress_spec (h : List.Forall₂ SameDescriptor lib.descriptors ds) :
    ((∃ desc ∈ ds, Proper desc) →
      (∃ desc ∈ ds, Proper desc ∧ desc.physicalStart = lib.getFirstValidAddress) ∧
        ∀ desc ∈ ds, Proper desc → lib.getFirstValidAddress ≤ desc.physicalStart) ∧
    ((¬ ∃ desc ∈ ds, Proper desc) → lib.getFirstValidAddress = 0) := by
  have hcand : ∀ r, (∃ efi ∈ lib.descriptors, firstCandidate efi = some r) ↔
      ∃ desc ∈ ds, Proper desc ∧ desc.physicalStart = r := fun r =>
    exists_mem_iff_of_forall₂ (firstCandidate · = some r)
      (fun desc => Proper desc ∧ desc.physicalStart = r)
      (fun _ _ hsame => firstCandidate_eq_some hsame) h
  have hfirst : lib.getFirstValidAddress =
      if lib.descriptors.foldl firstAddressStep maxUint64 = maxUint64 then 0
      else lib.descriptors.foldl firstAddressStep maxUint64 := by
    rw [MemLib.getFirstValidAddress]
    by_cases huncached : lib.gMemMap.isNone = true ∨ lib.gDescSize = 0
    · rw [if_pos huncached, descriptors_eq_nil huncached]
      rfl
    · exact if_neg huncached
  rcases firstAddressStep_isSearch.foldl_finds lib.descriptors fun _ _ => trivial with
    ⟨hmax, hnone⟩ | ⟨hfound, hleast⟩
  · have hproper : ¬ ∃ desc ∈ ds, Proper desc := by
      rintro ⟨desc, hmem, hproper⟩
      obtain ⟨efi, hefi, hsome⟩ := (hcand _).2 ⟨desc, hmem, hproper, rfl⟩
      rw [hnone efi hefi] at hsome
      cases hsome
    rw [if_pos hmax] at hfirst
    exact ⟨fun h => absurd h hproper, fun _ => hfirst⟩
  · have hat := (hcand _).1 hfound
    obtain ⟨efi, -, hsome⟩ := hfound
    rw [if_neg (firstAddressStep_isSearch.cand_ne efi _ trivial hsome)] at hfirst
    rw [hfirst]
    refine ⟨fun _ => ⟨hat, fun desc hmem hproper => ?_⟩, fun hnone => ?_⟩
    · obtain ⟨efi, hefi, hsome⟩ := (hcand _).2 ⟨desc, hmem, hproper, rfl⟩
      exact hleast efi hefi _ hsome
    · obtain ⟨desc, hmem, hproper, -⟩ := hat
      exact absurd ⟨desc, hmem, hproper⟩ hnone

end

/-! ## The first address -/

section
variable {ds : List NxMemoryDescriptor}

/-- **Where PageMem opens** with the map: on the page around the first address. -/
theorem opens_iff (hds : ds ≠ []) {P : NxU64 → Prop} :
    (∀ {W : Type} (a : AdapterManager W) (s s' : PageMemPageState) (w w' : W) (status : NxStatus),
      pageMemControllerInit s a w = (some (status, s'), w') → nxUiError status = false →
        s'.addressMap = ⟨some ds⟩ → P s'.cursorState.address) ↔
      P (pageCoreAlignToPage (pageCoreGetFirstValidAddress ⟨some ds⟩) pageSize) := by
  constructor
  · intro h
    obtain ⟨d, ds, rfl⟩ := List.exists_cons_of_ne_nil hds
    exact h (deskAdapters (d :: ds)) deskState _ (desk [] []) _ .success rfl rfl rfl
  · intro h W a s s' w w' status hinit hok hmap
    obtain ⟨_, descriptors, _, -, -, hmap', hcursor, -⟩ := pageMemControllerInit_success hinit hok
    rw [hmap'] at hmap
    obtain rfl : descriptors = ds := by cases hmap; rfl
    rw [hcursor]
    exact h

theorem firstAddress_of_find {first : NxMemoryDescriptor}
    (h : ds.find? isDescriptorValid = some first) :
    pageCoreGetFirstValidAddress ⟨some ds⟩ = first.physicalStart := by
  simp only [pageCoreGetFirstValidAddress, h]

theorem find_of_live {desc : NxMemoryDescriptor} (hmem : desc ∈ ds) (h : Live desc) :
    ∃ first, ds.find? isDescriptorValid = some first :=
  Option.isSome_iff_exists.1 (List.find?_isSome.2 ⟨desc, hmem, h.1⟩)

end

/-- What the first address is for: it is the lowest address of the map, also for
    NexusMemLib, and PageMem opens on a page of the map if there is one. -/
structure OpensLowest (lib : MemLib) (ds : List NxMemoryDescriptor) : Prop where
  lowest : (∃ a, pageCoreIsAddressValid ⟨some ds⟩ a = true) →
    pageCoreIsAddressValid ⟨some ds⟩ (pageCoreGetFirstValidAddress ⟨some ds⟩) = true ∧
      ∀ a, pageCoreIsAddressValid ⟨some ds⟩ a = true → pageCoreGetFirstValidAddress ⟨some ds⟩ ≤ a
  no_address : (¬ ∃ a, pageCoreIsAddressValid ⟨some ds⟩ a = true) →
    pageCoreGetFirstValidAddress ⟨some ds⟩ = 0
  memLib : lib.getFirstValidAddress = pageCoreGetFirstValidAddress ⟨some ds⟩
  page : (∃ q, Page ⟨some ds⟩ pageSize q) →
    ∀ {W : Type} (a : AdapterManager W) (s s' : PageMemPageState) (w w' : W) (status : NxStatus),
      pageMemControllerInit s a w = (some (status, s'), w') → nxUiError status = false →
        s'.addressMap = ⟨some ds⟩ → Page ⟨some ds⟩ pageSize s'.cursorState.address

/-- The first descriptor of a browsable type starts at a page, where a proper
    descriptor starts too, and below no start of a descriptor with an address. -/
def FirstIsLowest (ds : List NxMemoryDescriptor) : Prop :=
  ∃ first, ds.find? isDescriptorValid = some first ∧ 256 ∣ first.physicalStart.toNat ∧
    (∃ desc ∈ ds, Proper desc ∧ desc.physicalStart = first.physicalStart) ∧
    ∀ desc ∈ ds, Live desc → first.physicalStart ≤ desc.physicalStart

/-- There is no proper descriptor, the first of a browsable type starts at 0 if
    there is one, and a descriptor with an address starts there if there is one. -/
structure FirstIsZero (ds : List NxMemoryDescriptor) : Prop where
  no_proper : ¬ ∃ desc ∈ ds, Proper desc
  first : ∀ first, ds.find? isDescriptorValid = some first → first.physicalStart = 0
  live : (∃ desc ∈ ds, Live desc) → ∃ desc ∈ ds, Live desc ∧ desc.physicalStart = 0

section
variable {lib : MemLib} {ds : List NxMemoryDescriptor}

/-- With an address in the map, the first address has to be the lowest, and a
    multiple of the page size. -/
theorem opensLowest_iff_of_live (hlive : ∃ desc ∈ ds, Live desc) :
    OpensLowest lib ds ↔ Lowest ds (pageCoreGetFirstValidAddress ⟨some ds⟩) ∧
      lib.getFirstValidAddress = pageCoreGetFirstValidAddress ⟨some ds⟩ ∧
      256 ∣ (pageCoreGetFirstValidAddress ⟨some ds⟩).toNat := by
  obtain ⟨desc, hmem, hdesc⟩ := hlive
  have hds : ds ≠ [] := List.ne_nil_of_mem hmem
  have haddress := exists_address_iff.2 ⟨desc, hmem, hdesc⟩
  have hpage := exists_page hmem hdesc
  constructor
  · intro h
    have hlowest := lowest_iff.2 (h.lowest haddress)
    exact ⟨hlowest, h.memLib, hlowest.page_iff.1 ((opens_iff hds).1 (h.page hpage))⟩
  · rintro ⟨hlowest, hlib, hdvd⟩
    exact ⟨fun _ => lowest_iff.1 hlowest, fun h => absurd haddress h, hlib,
      fun _ => (opens_iff hds).2 (hlowest.page_iff.2 hdvd)⟩

/-- Without one it has to be 0. -/
theorem opensLowest_iff_of_not_live (hlive : ¬ ∃ desc ∈ ds, Live desc) :
    OpensLowest lib ds ↔ pageCoreGetFirstValidAddress ⟨some ds⟩ = 0 ∧
      lib.getFirstValidAddress = 0 := by
  have haddress := mt exists_address_iff.1 hlive
  constructor
  · intro h
    have hzero := h.no_address haddress
    exact ⟨hzero, h.memLib.trans hzero⟩
  · rintro ⟨hzero, hlib⟩
    refine ⟨fun h => absurd h haddress, fun _ => hzero, hlib.trans hzero.symm, ?_⟩
    rintro ⟨q, hq⟩
    exact absurd hq.exists_live hlive

/-- With a proper descriptor. -/
theorem opensLowest_iff_of_proper (h : List.Forall₂ SameDescriptor lib.descriptors ds)
    (hproper : ∃ desc ∈ ds, Proper desc) : OpensLowest lib ds ↔ FirstIsLowest ds := by
  obtain ⟨⟨d, hd, hdproper, hstart⟩, hle⟩ := (getFirstValidAddress_spec h).1 hproper
  obtain ⟨first, hfirst⟩ := find_of_live hd hdproper.live
  rw [opensLowest_iff_of_live ⟨d, hd, hdproper.live⟩, firstAddress_of_find hfirst]
  constructor
  · rintro ⟨hlowest, hlib, hdvd⟩
    exact ⟨first, hfirst, hdvd, ⟨d, hd, hdproper, hstart.trans hlib⟩, hlowest.le⟩
  · rintro ⟨first', hfirst', hdvd, ⟨d', hd', hproper', hstart'⟩, hlow⟩
    obtain rfl : first = first' := Option.some.inj (hfirst.symm.trans hfirst')
    refine ⟨⟨⟨d', hd', hproper'.live, hstart'⟩, hlow⟩, ?_, hdvd⟩
    -- the two starts are least among the proper descriptors
    have hlib := hle d' hd' hproper'
    have hcore := hlow d hd hdproper.live
    rw [hstart'] at hlib
    rw [hstart] at hcore
    exact BitVec.le_antisymm hlib hcore

/-- Without one. -/
theorem opensLowest_iff_of_not_proper (h : List.Forall₂ SameDescriptor lib.descriptors ds)
    (hproper : ¬ ∃ desc ∈ ds, Proper desc) : OpensLowest lib ds ↔ FirstIsZero ds := by
  have hzero := (getFirstValidAddress_spec h).2 hproper
  by_cases hlive : ∃ desc ∈ ds, Live desc
  · obtain ⟨desc, hmem, hdesc⟩ := hlive
    obtain ⟨first, hfirst⟩ := find_of_live hmem hdesc
    rw [opensLowest_iff_of_live ⟨desc, hmem, hdesc⟩, firstAddress_of_find hfirst, hzero]
    constructor
    · rintro ⟨hlowest, hlib, -⟩
      refine ⟨hproper, fun first' hfirst' => ?_, fun _ => ?_⟩
      · obtain rfl : first = first' := Option.some.inj (hfirst.symm.trans hfirst')
        exact hlib.symm
      · rw [hlib]
        exact hlowest.start
    · intro hno
      rw [hno.first first hfirst]
      refine ⟨⟨hno.live ⟨desc, hmem, hdesc⟩, fun d _ _ => ?_⟩, rfl, dvd_zero _⟩
      exact Nat.zero_le d.physicalStart.toNat
  · rw [opensLowest_iff_of_not_live hlive, hzero]
    constructor
    · rintro ⟨hfirst, -⟩
      refine ⟨hproper, fun first hfind => ?_, fun h => absurd h hlive⟩
      rw [← firstAddress_of_find hfind]
      exact hfirst
    · intro hno
      refine ⟨?_, rfl⟩
      rcases hfind : ds.find? isDescriptorValid with _ | first
      · simp only [pageCoreGetFirstValidAddress, hfind]
      · rw [firstAddress_of_find hfind]
        exact hno.first first hfind

end

/-- **When PageMem opens on the lowest address**: with a proper descriptor, if and
    only if the first descriptor of a browsable type starts with one, at a page,
    and below no start of a descriptor with an address; without, if and only if
    the first address is 0 and the lowest one if there is any. -/
theorem first_address_iff (lib : MemLib) (ds : List NxMemoryDescriptor)
    (h : List.Forall₂ SameDescriptor lib.descriptors ds) :
    OpensLowest lib ds ↔ FirstIsLowest ds ∨ FirstIsZero ds := by
  by_cases hproper : ∃ desc ∈ ds, Proper desc
  · rw [opensLowest_iff_of_proper h hproper]
    exact ⟨Or.inl, fun hc => hc.resolve_right fun hzero => hzero.no_proper hproper⟩
  · rw [opensLowest_iff_of_not_proper h hproper]
    refine ⟨Or.inr, fun hc => hc.resolve_left ?_⟩
    rintro ⟨_, _, _, ⟨desc, hmem, hdesc, -⟩, -⟩
    exact hproper ⟨desc, hmem, hdesc⟩

/-- Boot services data is the first of a browsable type, and the lowest. -/
theorem first_address_iff_unsorted :
    OpensLowest unsortedLib (unsortedLib.descriptors.map toCore) := by
  refine (first_address_iff unsortedLib _ (forall₂_toCore _)).2 (Or.inl ?_)
  rw [unsortedLib_descriptors]
  refine ⟨toCore ⟨4, 0x1000, 1, 0⟩, by decide, ⟨16, rfl⟩,
    ⟨toCore ⟨4, 0x1000, 1, 0⟩, by decide, ⟨rfl, by decide, by decide⟩, rfl⟩, ?_⟩
  -- the descriptor at 0 is reserved
  have hlow : ∀ desc ∈ unsortedMap.map toCore, isDescriptorValid desc = true →
      (0x1000 : NxU64) ≤ desc.physicalStart := by decide
  exact fun desc hmem hlive => hlow desc hmem hlive.1

/-- NexusMemLib's map whose first descriptor is empty. -/
def emptyFirstLib : MemLib := .ofDescriptors [⟨7, 0x5000, 0, 0⟩, ⟨7, 0x1000, 1, 0⟩] none

/-- The page that PageMem opens on is not in the map, although the map has a page. -/
theorem emptyFirst_opens :
    pageCoreIsAddressValid ⟨some (emptyFirstLib.descriptors.map toCore)⟩ 0x1000 = true ∧
    pageCoreGetFirstValidAddress ⟨some (emptyFirstLib.descriptors.map toCore)⟩ = 0x5000 ∧
    pageCoreIsAddressValid ⟨some (emptyFirstLib.descriptors.map toCore)⟩ 0x5000 = false ∧
    emptyFirstLib.getFirstValidAddress = 0x1000 ∧
    ¬ OpensLowest emptyFirstLib (emptyFirstLib.descriptors.map toCore) := by
  have hfirst : pageCoreGetFirstValidAddress ⟨some (emptyFirstLib.descriptors.map toCore)⟩ =
      0x5000 := by decide +kernel
  have hlib : emptyFirstLib.getFirstValidAddress = 0x1000 := by decide +kernel
  refine ⟨by decide +kernel, hfirst, by decide +kernel, hlib, fun h => ?_⟩
  have hsame := h.memLib
  rw [hfirst, hlib] at hsame
  exact absurd hsame (by decide)

end UefiNexus
