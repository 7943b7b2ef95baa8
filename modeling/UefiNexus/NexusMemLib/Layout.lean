/-
  The layout of an EFI memory map in a buffer.

  `mapBuffer stride descs` is the buffer in which the firmware stores the
  descriptors `descs`, `stride` bytes apart; the library reads them back
  (`descriptors_ofDescriptors`).  So every list of descriptors is the map of
  some state of the library.
-/
import UefiNexus.NexusMemLib.MemMap

namespace UefiNexus

/-- `sizeof (EFI_MEMORY_DESCRIPTOR)`. -/
def efiDescriptorSize : ℕ := 40

/-- The byte number `i` of an `EFI_MEMORY_DESCRIPTOR`; the padding and the
    virtual address are zero. -/
def encodeDescriptor (desc : EfiMemoryDescriptor) (i : ℕ) : NxU8 :=
  if i < 4 then ByteMem.byteOf desc.type.toNat i
  else if 8 ≤ i ∧ i < 16 then ByteMem.byteOf desc.physicalStart.toNat (i - 8)
  else if 24 ≤ i ∧ i < 32 then ByteMem.byteOf desc.numberOfPages.toNat (i - 24)
  else if 32 ≤ i ∧ i < 40 then ByteMem.byteOf desc.attr.toNat (i - 32)
  else 0

/-- The descriptors, `stride` bytes apart. -/
def mapBuffer (stride : ℕ) (descs : List EfiMemoryDescriptor) : Buffer := fun i =>
  match descs[i / stride]? with
  | some desc => encodeDescriptor desc (i % stride)
  | none => 0

theorem mapBuffer_apply {stride index k : ℕ} {descs : List EfiMemoryDescriptor}
    {desc : EfiMemoryDescriptor} (hk : k < stride) (h : descs[index]? = some desc) :
    mapBuffer stride descs (index * stride + k) = encodeDescriptor desc k := by
  have hdiv : (index * stride + k) / stride = index := by
    rw [Nat.mul_comm, Nat.mul_add_div (by omega), Nat.div_eq_of_lt hk, Nat.add_zero]
  have hmod : (index * stride + k) % stride = k := by
    rw [Nat.mul_comm, Nat.mul_add_mod, Nat.mod_eq_of_lt hk]
  simp only [mapBuffer, hdiv, h, hmod]

/-- A field of `n` bytes at `offset`, read from where the map has it. -/
theorem field_mapBuffer {w index : ℕ} {descs : List EfiMemoryDescriptor}
    {desc : EfiMemoryDescriptor} (stride offset n : ℕ) (field : BitVec w)
    (hn : offset + n ≤ stride) (h : descs[index]? = some desc) (hw : 256 ^ n = 2 ^ w)
    (hfield : ∀ i < n, encodeDescriptor desc (offset + i) = ByteMem.byteOf field.toNat i) :
    BitVec.ofNat w
      (ByteMem.leValue (fun i => mapBuffer stride descs (index * stride + offset + i)) n) =
      field := by
  have : ByteMem.leValue (fun i => mapBuffer stride descs (index * stride + offset + i)) n =
      field.toNat := by
    have hbytes : ∀ i < n, mapBuffer stride descs (index * stride + offset + i) =
        ByteMem.byteOf field.toNat i := by
      intro i hi
      rw [Nat.add_assoc, mapBuffer_apply (by omega) h, hfield i hi]
    rw [ByteMem.leValue_congr hbytes, ByteMem.leValue_byteOf, hw, Nat.mod_eq_of_lt field.isLt]
  rw [this, BitVec.ofNat_toNat, BitVec.setWidth_eq]

/-- The library reads the descriptors back. -/
theorem descriptorAt_mapBuffer {stride index : ℕ} {descs : List EfiMemoryDescriptor}
    {desc : EfiMemoryDescriptor} (hs : efiDescriptorSize ≤ stride)
    (h : descs[index]? = some desc) :
    descriptorAt (mapBuffer stride descs) (index * stride) = desc := by
  simp only [efiDescriptorSize] at hs
  obtain ⟨type, physicalStart, numberOfPages, attr⟩ := desc
  have h1 := field_mapBuffer stride 0 4 type (by omega) h (by decide)
    fun i hi => by simp only [encodeDescriptor]; rw [if_pos (by omega), Nat.zero_add]
  have h2 := field_mapBuffer stride 8 8 physicalStart (by omega) h
    (by decide) fun i hi => by
      simp only [encodeDescriptor]
      rw [if_neg (by omega), if_pos (by omega), Nat.add_sub_cancel_left]
  have h3 := field_mapBuffer stride 24 8 numberOfPages (by omega) h
    (by decide) fun i hi => by
      simp only [encodeDescriptor]
      rw [if_neg (by omega), if_neg (by omega), if_pos (by omega), Nat.add_sub_cancel_left]
  have h4 := field_mapBuffer stride 32 8 attr (by omega) h
    (by decide) fun i hi => by
      simp only [encodeDescriptor]
      rw [if_neg (by omega), if_neg (by omega), if_neg (by omega), if_pos (by omega),
        Nat.add_sub_cancel_left]
  rw [Nat.add_zero] at h1
  rw [descriptorAt, h1, h2, h3, h4]

/-- The descriptors of a cached map of `count` entries. -/
theorem descriptors_eq {lib : MemLib} {buffer : Buffer} {descs : List EfiMemoryDescriptor}
    (stride : ℕ) (hb : lib.gMemMap = some buffer)
    (hs : lib.gDescSize.toNat = stride) (hpos : 0 < stride)
    (hsize : lib.gMemMapSize.toNat = descs.length * stride)
    (h : ∀ index desc, descs[index]? = some desc → descriptorAt buffer (index * stride) = desc) :
    lib.descriptors = descs := by
  have hne : ¬ lib.gDescSize = 0 := by
    intro h0; rw [h0] at hs; exact absurd hs.symm (by simpa using hpos.ne')
  have hcount : (lib.gMemMapSize / lib.gDescSize).toNat = descs.length := by
    rw [BitVec.toNat_udiv, hsize, hs, Nat.mul_div_cancel _ hpos]
  simp only [MemLib.descriptors, hb, if_neg hne, hcount, hs]
  refine List.ext_getElem (by simp) fun i h1 h2 => ?_
  rw [List.getElem_map, List.getElem_range]
  exact h i _ (List.getElem?_eq_getElem h2)

/-- The library with the map `descs`, 48 bytes apart. -/
def MemLib.ofDescriptors (descs : List EfiMemoryDescriptor)
    (protocol : Option MemoryAttributeProtocol) : MemLib where
  gMemMap := some (mapBuffer 48 descs)
  gMemMapSize := BitVec.ofNat 64 (descs.length * 48)
  gDescSize := 48
  gMemoryAttributeProtocol := protocol
  gMemoryAttributeProtocolLocated := true

/-- **Every list of descriptors is the map of some state of the library.** -/
theorem descriptors_ofDescriptors {descs : List EfiMemoryDescriptor}
    {protocol : Option MemoryAttributeProtocol} (h : descs.length * 48 < 2 ^ 64) :
    (MemLib.ofDescriptors descs protocol).descriptors = descs := by
  refine descriptors_eq 48 rfl rfl (by decide) ?_ fun index desc hi =>
    descriptorAt_mapBuffer (by decide) hi
  simp only [MemLib.ofDescriptors, BitVec.toNat_ofNat]
  exact Nat.mod_eq_of_lt h

end UefiNexus
