/-
  Physical memory is read and written by the access policy, and the access of a
  range is the access of its parts.
-/
import UefiNexus.Proof.Access

namespace UefiNexus

/-! ## Reads and writes -/

section
variable {bs : BootServices} {lib : MemLib} {memory : PhysMem} {a : NxU64} {width : NxUintn}

theorem memRead_success_iff {old : NxU64} :
    (memRead bs lib memory a width (some old)).1 = efiSuccess ↔ ReadAllowed bs lib a width := by
  by_cases h : ReadAllowed bs lib a width
  · obtain ⟨lib', hr, -⟩ := memRead_of_allowed memory old h
    exact iff_of_true (by rw [hr]) h
  · obtain ⟨status, lib', hr, he, -⟩ := memRead_of_not_allowed memory old h
    refine iff_of_false ?_ h
    rw [hr]; rintro rfl; exact absurd he (by decide)

theorem memWrite_success_iff {value : NxU64} :
    (memWrite bs lib memory a width value).1 = efiSuccess ↔ WriteAllowed bs lib a width := by
  by_cases h : WriteAllowed bs lib a width
  · obtain ⟨lib', hr, -⟩ := memWrite_of_allowed memory value h
    exact iff_of_true (by rw [hr]) h
  · obtain ⟨status, lib', hr, he, -⟩ := memWrite_of_not_allowed memory value h
    refine iff_of_false ?_ h
    rw [hr]; rintro rfl; exact absurd he (by decide)

theorem load_lt (hw : WidthOk width) : ByteMem.load memory a width.toNat < 2 ^ 64 := by
  have hlt : ByteMem.load memory a width.toNat < 256 ^ width.toNat := ByteMem.leValue_lt _ _
  exact hlt.trans_le ((Nat.pow_le_pow_right (by decide) hw.toNat_le).trans (by decide))

/-- A load fits in the value that is read. -/
theorem toNat_load (hw : WidthOk width) :
    (BitVec.ofNat 64 (ByteMem.load memory a width.toNat)).toNat =
      ByteMem.load memory a width.toNat := by
  rw [BitVec.toNat_ofNat, Nat.mod_eq_of_lt (load_lt hw)]

/-- The bytes of the value of a load. -/
theorem byteOf_load (hw : WidthOk width) (i : ℕ) :
    ByteMem.byteOf (BitVec.ofNat 64 (ByteMem.load memory a width.toNat)).toNat i =
      if i < width.toNat then memory (a + BitVec.ofNat 64 i) else 0 := by
  have hlt : ByteMem.load memory a width.toNat < 256 ^ width.toNat := ByteMem.leValue_lt _ _
  rw [toNat_load hw]
  split_ifs with hi
  · exact ByteMem.byteOf_leValue hi
  · exact ByteMem.byteOf_of_lt hlt (by omega)

/-- The range of an access does not wrap around. -/
theorem Granted.no_wrap {n attributes : NxU64} {desc : EfiMemoryDescriptor}
    (h : Granted bs lib a n desc attributes) : a.toNat + n.toNat < 2 ^ 64 := by
  obtain ⟨⟨-, hwf⟩, -, hstop⟩ := h.first.holds
  simp only [EfiMemoryDescriptor.extent, rangeOf, Span.stop] at hstop
  omega

/-- A store changes the bytes of its range, to the low bytes of the value. -/
theorem store_apply {n value : ℕ} (h : a.toNat + n ≤ 2 ^ 64) (x : NxU64) :
    ByteMem.store memory a n value x =
      if a.toNat ≤ x.toNat ∧ x.toNat < a.toNat + n then ByteMem.byteOf value (x.toNat - a.toNat)
      else memory x := by
  have hx := @ByteMem.sub_toNat_lt_iff 64 a x n h
  split_ifs with hi
  · rw [ByteMem.store_of_lt (hx.2 hi), BitVec.toNat_sub_of_le (BitVec.le_def.2 hi.1)]
  · exact ByteMem.store_of_le (Nat.le_of_not_lt fun hlt => hi (hx.1 hlt))

end

/-- Where the second protocol succeeds, so does the first, with no other bits. -/
def Restricts (second first : Option MemoryAttributeProtocol) : Prop :=
  ∀ a n attributes, Answers second a n attributes →
    ∃ attributes', Answers first a n attributes' ∧ attributes' &&& attributes = attributes'

theorem and_eq_zero_of_subset {x y m : NxU64} (h : x &&& y = x) (hy : y &&& m = 0) :
    x &&& m = 0 := by
  rw [← h, BitVec.and_assoc, hy]; exact BitVec.and_zero

/-- A grant under the second protocol is a grant under the first. -/
theorem Granted.of_restricts {bs bs' : BootServices} {lib lib' : MemLib} {a n attributes : NxU64}
    {desc : EfiMemoryDescriptor} (hd : lib'.descriptors = lib.descriptors)
    (hr : Restricts (lib'.protocol bs') (lib.protocol bs))
    (h : Granted bs' lib' a n desc attributes) :
    ∃ attributes', Granted bs lib a n desc attributes' ∧ attributes' &&& attributes = attributes' := by
  obtain ⟨attributes', hans, hsub⟩ := hr a n attributes h.answers
  exact ⟨attributes', ⟨h.pos, hd ▸ h.first, hans⟩, hsub⟩

/-- **Memory is read and written by the access policy.**  A read succeeds exactly
    if the policy allows it; it then yields the little-endian value of the bytes
    of its range, and otherwise zero.  A write succeeds exactly if the policy
    allows it; it then changes exactly the bytes of its range, to the low bytes
    of its value, and otherwise nothing.  Attributes only restrict. -/
theorem access_policy (bs : BootServices) (lib : MemLib) (memory : PhysMem) (a : NxU64)
    (width : NxUintn) :
    (∀ old : NxU64,
      ((memRead bs lib memory a width (some old)).1 = efiSuccess ↔ ReadAllowed bs lib a width) ∧
      ((memRead bs lib memory a width (some old)).1 = efiSuccess →
        ∃ value, (memRead bs lib memory a width (some old)).2.1 = some value ∧
          ∀ i, ByteMem.byteOf value.toNat i =
            if i < width.toNat then memory (a + BitVec.ofNat 64 i) else 0) ∧
      ((memRead bs lib memory a width (some old)).1 ≠ efiSuccess →
        (memRead bs lib memory a width (some old)).2.1 = some 0)) ∧
    (∀ value : NxU64,
      ((memWrite bs lib memory a width value).1 = efiSuccess ↔ WriteAllowed bs lib a width) ∧
      ((memWrite bs lib memory a width value).1 = efiSuccess →
        ∀ x, (memWrite bs lib memory a width value).2.1 x =
          if a.toNat ≤ x.toNat ∧ x.toNat < a.toNat + width.toNat then
            ByteMem.byteOf value.toNat (x.toNat - a.toNat)
          else memory x) ∧
      ((memWrite bs lib memory a width value).1 ≠ efiSuccess →
        (memWrite bs lib memory a width value).2.1 = memory)) ∧
    (∀ (bs' : BootServices) (lib' : MemLib), lib'.descriptors = lib.descriptors →
      Restricts (lib'.protocol bs') (lib.protocol bs) →
        (∀ old : NxU64, (memRead bs' lib' memory a width (some old)).1 = efiSuccess →
          (memRead bs lib memory a width (some old)).1 = efiSuccess) ∧
        (∀ value : NxU64, (memWrite bs' lib' memory a width value).1 = efiSuccess →
          (memWrite bs lib memory a width value).1 = efiSuccess)) := by
  refine ⟨fun old => ⟨memRead_success_iff, fun h => ?_, fun h => ?_⟩,
    fun value => ⟨memWrite_success_iff, fun h x => ?_, fun h => ?_⟩,
    fun bs' lib' hd hr => ⟨fun old h => ?_, fun value h => ?_⟩⟩
  · have hp := memRead_success_iff.1 h
    obtain ⟨lib', hm, -⟩ := memRead_of_allowed memory old hp
    exact ⟨_, by rw [hm], byteOf_load hp.1⟩
  · obtain ⟨status, lib', hm, -, -⟩ :=
      memRead_of_not_allowed memory old fun hp => h (memRead_success_iff.2 hp)
    rw [hm]
  · have hp := memWrite_success_iff.1 h
    obtain ⟨lib', hm, -⟩ := memWrite_of_allowed memory value hp
    obtain ⟨-, -, desc, attributes, hg, -⟩ := hp
    rw [hm]
    exact store_apply hg.no_wrap.le x
  · obtain ⟨status, lib', hm, -, -⟩ :=
      memWrite_of_not_allowed memory value fun hp => h (memWrite_success_iff.2 hp)
    rw [hm]
  · rw [memRead_success_iff] at h ⊢
    obtain ⟨hw, hdvd, desc, attributes, hg, ht, hrp⟩ := h
    obtain ⟨attributes', hg', hsub⟩ := hg.of_restricts hd hr
    exact ⟨hw, hdvd, desc, attributes', hg', ht, and_eq_zero_of_subset hsub hrp⟩
  · rw [memWrite_success_iff] at h ⊢
    obtain ⟨hw, hdvd, desc, attributes, hg, ht, hro⟩ := h
    obtain ⟨attributes', hg', hsub⟩ := hg.of_restricts hd hr
    exact ⟨hw, hdvd, desc, attributes', hg', ht, and_eq_zero_of_subset hsub hro⟩

end UefiNexus
