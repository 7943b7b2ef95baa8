/-
  What is browsable, for NexusMemLib and for the Core.

  * `BrowsableAt desc q n`: the descriptor is browsable, ends below the end of
    the address space, and has the `n` addresses from `q` on; the extent is
    computed over the natural numbers;
  * `WrapsAround desc q n`: the same after `NumberOfPages << 12` has lost its
    high bits;
  * NexusMemLib accepts the pages of `BrowsableAt` (`memLib_isPageValid_iff`).  The
    Core shifts the page count before it checks anything, and so accepts the
    pages of `WrapsAround` too (`browsable_agree_iff`).
-/
import UefiNexus.Proof.MapCopy

namespace UefiNexus

open Align (PowTwo)

/-! ## Extents -/

/-- The descriptor is browsable and has the addresses; it ends at or below the last
    64-bit address. -/
structure BrowsableAt (desc : EfiMemoryDescriptor) (q n : ℕ) : Prop where
  type : isMemoryTypeBrowsable desc.type = true
  start_le : desc.physicalStart.toNat ≤ q
  le_end : q + n ≤ desc.physicalStart.toNat + desc.numberOfPages.toNat * 4096
  end_lt : desc.physicalStart.toNat + desc.numberOfPages.toNat * 4096 < 2 ^ 64

/-- The descriptor has so many pages that its size in bytes is no 64-bit number,
    and is browsable and has the addresses when the size is reduced to one. -/
structure WrapsAround (desc : EfiMemoryDescriptor) (q n : ℕ) : Prop where
  pages : 2 ^ 52 ≤ desc.numberOfPages.toNat
  type : isMemoryTypeBrowsable desc.type = true
  start_le : desc.physicalStart.toNat ≤ q
  le_end : q + n ≤ desc.physicalStart.toNat + desc.numberOfPages.toNat * 4096 % 2 ^ 64
  end_lt : desc.physicalStart.toNat + desc.numberOfPages.toNat * 4096 % 2 ^ 64 < 2 ^ 64

section
variable {desc : EfiMemoryDescriptor} {q n : ℕ}

/-- The types of the two tables. -/
theorem isDescriptorValid_toCore (desc : EfiMemoryDescriptor) :
    isDescriptorValid (toCore desc) = isMemoryTypeBrowsable desc.type := by
  rcases hbrowsable : isMemoryTypeBrowsable desc.type with _ | _
  · simp only [isMemoryTypeBrowsable, readableTypes, writableTypes, List.cons_append,
      List.nil_append, List.mem_cons, List.not_mem_nil, or_false, decide_eq_false_iff_not,
      not_or, efiLoaderCode, efiLoaderData, efiBootServicesCode, efiBootServicesData,
      efiRuntimeServicesCode, efiRuntimeServicesData, efiConventionalMemory,
      efiAcpiReclaimMemory, efiAcpiMemoryNvs, efiMemoryMappedIo, efiMemoryMappedIoPortSpace]
      at hbrowsable
    obtain ⟨h1, h2, h3, h4, h5, h6, h7, h9, h10, h11, h12⟩ := hbrowsable
    have hother : mapMemoryType desc.type = .other := by
      rw [mapMemoryType, if_neg h1, if_neg h2, if_neg h3, if_neg h4, if_neg h5, if_neg h6,
        if_neg h7, if_neg h9, if_neg h10, if_neg (not_or.2 ⟨h11, h12⟩)]
    simp only [isDescriptorValid, toCore, hother]
  · exact mapMemoryType_browsable hbrowsable _ _ _

theorem toNat_shift (pages : NxU64) : (pages <<< 12).toNat = pages.toNat * 4096 % 2 ^ 64 := by
  rw [BitVec.toNat_shiftLeft, Nat.shiftLeft_eq]

/-- **The Core's test** of a descriptor: the size is reduced. -/
theorem holdsRange_toCore_iff :
    HoldsRange (toCore desc) q n ↔ BrowsableAt desc q n ∨ WrapsAround desc q n := by
  rw [HoldsRange, isDescriptorValid_toCore]
  simp only [toCore, toNat_shift]
  have hpages := desc.numberOfPages.isLt
  constructor
  · rintro ⟨htype, hstart, hend, hlt⟩
    by_cases hmany : 2 ^ 52 ≤ desc.numberOfPages.toNat
    · exact Or.inr ⟨hmany, htype, hstart, hend, hlt⟩
    · have hsame : desc.numberOfPages.toNat * 4096 % 2 ^ 64 = desc.numberOfPages.toNat * 4096 :=
        Nat.mod_eq_of_lt (by omega)
      rw [hsame] at hend hlt
      exact Or.inl ⟨htype, hstart, hend, hlt⟩
  · rintro (h | h)
    · obtain ⟨htype, hstart, hend, hlt⟩ := h
      have hsame : desc.numberOfPages.toNat * 4096 % 2 ^ 64 = desc.numberOfPages.toNat * 4096 :=
        Nat.mod_eq_of_lt (by omega)
      rw [hsame]
      exact ⟨htype, hstart, hend, hlt⟩
    · exact ⟨h.type, h.start_le, h.le_end, h.end_lt⟩

/-- **NexusMemLib's test** of a descriptor. -/
theorem browsable_containsRange_iff {base size : NxU64} (hsize : 0 < size.toNat)
    (h : base.toNat + size.toNat < 2 ^ 64) :
    (isMemoryTypeBrowsable desc.type && desc.containsRange base (base + size)) = true ↔
      BrowsableAt desc base.toNat size.toNat := by
  rw [Bool.and_eq_true, EfiMemoryDescriptor.containsRange_iff h]
  simp only [EfiMemoryDescriptor.Contains, Table.Contains, EfiMemoryDescriptor.WellFormed,
    Span.Within, rangeOf, Span.stop, EfiMemoryDescriptor.extent]
  constructor
  · rintro ⟨htype, ⟨-, hlt⟩, hstart, hend⟩
    exact ⟨htype, hstart, hend, hlt⟩
  · rintro ⟨htype, hstart, hend, hlt⟩
    exact ⟨htype, ⟨by omega, hlt⟩, hstart, hend⟩

end

/-! ## Pages -/

/-- Without a cached map there are no descriptors. -/
theorem descriptors_eq_nil {lib : MemLib} (h : lib.gMemMap.isNone = true ∨ lib.gDescSize = 0) :
    lib.descriptors = [] := by
  rw [MemLib.descriptors]
  cases hmap : lib.gMemMap with
  | none => rfl
  | some buffer =>
    rcases h with hnone | hzero
    · rw [hmap] at hnone
      cases hnone
    · exact if_pos hzero

section
variable {lib : MemLib} {p q : NxU64} (hp : PowTwo p)
include hp

/-- Rounding down to a page. -/
theorem toNat_alignDown (q : NxU64) : (alignDown q p).toNat = q.toNat - q.toNat % p.toNat :=
  Align.toNat_and_not_mask hp

/-- **The pages NexusMemLib accepts.** -/
theorem memLib_isPageValid_iff :
    lib.isPageValid q p = true ↔
      ∃ desc ∈ lib.descriptors, BrowsableAt desc (q.toNat - q.toNat % p.toNat) p.toNat := by
  rw [← toNat_alignDown hp, MemLib.isPageValid, if_neg hp.ne_zero]
  by_cases hguard : alignDown q p > maxUint64 - p
  · simp only [if_pos hguard]
    refine iff_of_false (by simp) ?_
    rintro ⟨desc, -, -, -, hend, hlt⟩
    have hwrap := guard_iff.1 (Or.inr hguard)
    have hpos := hp.pos
    omega
  · have hfits : ¬ (p.toNat = 0 ∨ 2 ^ 64 ≤ (alignDown q p).toNat + p.toNat) := by
      rw [← guard_iff]
      exact not_or.2 ⟨hp.ne_zero, hguard⟩
    simp only [if_neg hguard]
    rw [List.any_eq_true]
    exact exists_congr fun desc => and_congr_right fun _ =>
      browsable_containsRange_iff hp.pos (by omega)

/-- **The pages the Core accepts** in the copy of the map. -/
theorem core_isRangeValid_iff (efi : List EfiMemoryDescriptor) :
    pageCoreIsRangeValid ⟨some (efi.map toCore)⟩ q p = true ↔
      ∃ desc ∈ efi, BrowsableAt desc q.toNat p.toNat ∨ WrapsAround desc q.toNat p.toNat := by
  rw [isRangeValid_iff_holdsRange rfl hp.ne_zero]
  simp only [List.mem_map, exists_exists_and_eq_and, holdsRange_toCore_iff]

end

/-- **The two libraries agree on a page**, with each other and with the descriptors,
    if and only if a browsable descriptor has the page wherever it is in the
    reduced extent of a descriptor of `2 ^ 52` pages or more. -/
theorem browsable_agree_iff (lib : MemLib) (pageSize address : NxU64) (hp : PowTwo pageSize)
    (haligned : pageSize.toNat ∣ address.toNat) :
    ((pageCoreIsRangeValid ⟨some (lib.descriptors.map toCore)⟩ address pageSize = true ↔
        lib.isPageValid address pageSize = true) ∧
      (pageCoreIsRangeValid ⟨some (lib.descriptors.map toCore)⟩ address pageSize = true ↔
        ∃ desc ∈ lib.descriptors, BrowsableAt desc address.toNat pageSize.toNat) ∧
      (lib.isPageValid address pageSize = true ↔
        ∃ desc ∈ lib.descriptors, BrowsableAt desc address.toNat pageSize.toNat)) ↔
    ∀ desc ∈ lib.descriptors, WrapsAround desc address.toNat pageSize.toNat →
      ∃ desc ∈ lib.descriptors, BrowsableAt desc address.toNat pageSize.toNat := by
  have hlib : lib.isPageValid address pageSize = true ↔
      ∃ desc ∈ lib.descriptors, BrowsableAt desc address.toNat pageSize.toNat := by
    rw [memLib_isPageValid_iff hp, Nat.mod_eq_zero_of_dvd haligned, Nat.sub_zero]
  have hcore := core_isRangeValid_iff hp (q := address) lib.descriptors
  rw [hlib, hcore]
  constructor
  · rintro ⟨h, -, -⟩ desc hmem hwraps
    exact h.1 ⟨desc, hmem, Or.inr hwraps⟩
  · intro h
    have hagree : (∃ desc ∈ lib.descriptors, BrowsableAt desc address.toNat pageSize.toNat ∨
        WrapsAround desc address.toNat pageSize.toNat) ↔
          ∃ desc ∈ lib.descriptors, BrowsableAt desc address.toNat pageSize.toNat := by
      constructor
      · rintro ⟨desc, hmem, hat | hwraps⟩
        · exact ⟨desc, hmem, hat⟩
        · exact h desc hmem hwraps
      · rintro ⟨desc, hmem, hat⟩
        exact ⟨desc, hmem, Or.inl hat⟩
    exact ⟨hagree, hagree, Iff.rfl⟩

/-- A map out of order: reserved memory, boot services data, conventional memory, no
    page at all, a device, memory that ends past the address space, and more pages
    than there are addresses. -/
def unsortedMap : List EfiMemoryDescriptor :=
  [⟨0, 0, 1, 0⟩, ⟨4, 0x1000, 1, 0⟩, ⟨7, 0x9000, 2, 0⟩, ⟨7, 0x5000, 0, 0⟩, ⟨11, 0x3000, 1, 0⟩,
    ⟨7, 0xFFFFFFFFFFFFF000, 2, 0⟩, ⟨7, 0x9000, 0x10000000000001, 0⟩]

/-- The library with that map. -/
def unsortedLib : MemLib := .ofDescriptors unsortedMap none

theorem unsortedLib_descriptors : unsortedLib.descriptors = unsortedMap :=
  descriptors_ofDescriptors (by decide)

/-- The last descriptor wraps around the page at `0x9F00`, which the third one has. -/
theorem browsable_agree_unsorted :
    unsortedLib.isPageValid 0x9F00 256 = true ∧
    (pageCoreIsRangeValid ⟨some (unsortedLib.descriptors.map toCore)⟩ 0x9F00 256 = true ↔
      unsortedLib.isPageValid 0x9F00 256 = true) := by
  have hthird : ∃ desc ∈ unsortedLib.descriptors,
      BrowsableAt desc (0x9F00 : NxU64).toNat (256 : NxU64).toNat := by
    rw [unsortedLib_descriptors]
    exact ⟨⟨7, 0x9000, 2, 0⟩, by decide, rfl, by decide, by decide, by decide⟩
  exact ⟨by decide +kernel,
    ((browsable_agree_iff unsortedLib 256 0x9F00 ⟨8, rfl⟩ ⟨159, rfl⟩).2 fun _ _ _ => hthird).1⟩

/-- The library with a descriptor of `2 ^ 52 + 1` pages. -/
def hugeLib : MemLib := .ofDescriptors [⟨7, 0x1000, 0x10000000000001, 0⟩] none

/-- **The page count loses its high bits** in the Core: the descriptor seems to have
    one page. -/
theorem hugeLib_disagrees :
    pageCoreIsRangeValid ⟨some (hugeLib.descriptors.map toCore)⟩ 0x1000 256 = true ∧
    hugeLib.isPageValid 0x1000 256 = false ∧
    ¬ (pageCoreIsRangeValid ⟨some (hugeLib.descriptors.map toCore)⟩ 0x1000 256 = true ↔
      hugeLib.isPageValid 0x1000 256 = true) := by
  have hcore : pageCoreIsRangeValid ⟨some (hugeLib.descriptors.map toCore)⟩ 0x1000 256 = true := by
    decide +kernel
  have hlib : hugeLib.isPageValid 0x1000 256 = false := by decide +kernel
  refine ⟨hcore, hlib, fun h => ?_⟩
  rw [h.1 hcore] at hlib
  cases hlib

end UefiNexus
