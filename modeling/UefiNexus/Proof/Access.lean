/-
  The access policy of NexusMemLib: what `QueryMemoryAccess`, `MemRead` and
  `MemWrite` allow.

  * `EfiMemoryDescriptor.Contains`: the descriptor is well-formed and contains
    an interval of addresses, over the natural numbers;
  * `Granted bs lib a n desc attributes`: `desc` is the first well-formed
    descriptor that contains the range and the protocol answers the range with
    `attributes`; then, and only then, the access is known (`Granted.query`,
    `query_not_granted`);
  * `ReadAllowed`, `WriteAllowed`: the policy, over the natural numbers.
-/
import UefiNexus.NexusMemLib.MemAccess
import UefiNexus.Lib.Span
import UefiNexus.Lib.Align

namespace UefiNexus

/-! ## Extents -/

/-- The addresses of a range. -/
def rangeOf (address length : NxU64) : Span := ⟨address.toNat, length.toNat⟩

namespace EfiMemoryDescriptor

/-- The descriptor has pages, and its end is a 64-bit address. -/
def WellFormed (desc : EfiMemoryDescriptor) : Prop :=
  0 < desc.numberOfPages.toNat ∧
    desc.physicalStart.toNat + desc.numberOfPages.toNat * 4096 < 2 ^ 64

/-- The addresses of the descriptor. -/
def extent (desc : EfiMemoryDescriptor) : Span :=
  ⟨desc.physicalStart.toNat, desc.numberOfPages.toNat * 4096⟩

/-- The descriptor is well-formed and contains the interval. -/
abbrev Contains (r : Span) (desc : EfiMemoryDescriptor) : Prop :=
  Table.Contains WellFormed extent r desc

theorem descriptorEnd_eq_some {desc : EfiMemoryDescriptor} {e : NxU64} :
    desc.descriptorEnd = some e ↔ desc.WellFormed ∧ e.toNat = desc.extent.stop := by
  simp only [descriptorEnd, WellFormed, extent, Span.stop]
  by_cases h : desc.numberOfPages = 0 ∨ desc.numberOfPages > maxUint64 >>> 12
  · rw [if_pos h]
    refine iff_of_false (by simp) fun hw => ?_
    simp only [maxUint64] at h
    bv_omega
  · rw [if_neg h]
    by_cases h' : desc.physicalStart > maxUint64 - desc.numberOfPages <<< 12
    · rw [if_pos h']
      refine iff_of_false (by simp) fun hw => ?_
      simp only [maxUint64] at h h'
      bv_omega
    · rw [if_neg h', Option.some_inj]
      simp only [maxUint64] at h h'
      constructor
      · rintro rfl; bv_omega
      · rintro ⟨-, he⟩; bv_omega

theorem containsRange_iff {desc : EfiMemoryDescriptor} {a n : NxU64}
    (h : a.toNat + n.toNat < 2 ^ 64) :
    desc.containsRange a (a + n) = true ↔ desc.Contains (rangeOf a n) := by
  have hend : (a + n).toNat = a.toNat + n.toNat := by bv_omega
  simp only [containsRange, Contains, Table.Contains, Span.Within, rangeOf]
  rcases hd : desc.descriptorEnd with _ | e
  · refine iff_of_false (by simp) fun hw => ?_
    have := (descriptorEnd_eq_some (e := desc.physicalStart + desc.numberOfPages <<< 12)).2
      ⟨hw.1, by
        obtain ⟨h1, h2⟩ := hw.1
        simp only [extent, Span.stop]; bv_omega⟩
    rw [hd] at this; simp at this
  · obtain ⟨hw, he⟩ := descriptorEnd_eq_some.1 hd
    simp only [Bool.and_eq_true, decide_eq_true_eq, ge_iff_le, BitVec.le_def, hend, he]
    simp only [Span.stop, extent, hw, true_and]

end EfiMemoryDescriptor

/-- The guard of the range functions: the range is empty, or its end is not a
    64-bit address. -/
theorem guard_iff {a n : NxU64} :
    (n = 0 ∨ a > maxUint64 - n) ↔ n.toNat = 0 ∨ 2 ^ 64 ≤ a.toNat + n.toNat := by
  simp only [maxUint64]
  constructor
  · intro h; bv_omega
  · intro h; bv_omega

theorem findDescriptorForRange_eq_some {lib : MemLib} {a n : NxU64} {desc : EfiMemoryDescriptor} :
    findDescriptorForRange lib a n = some desc ↔
      0 < n.toNat ∧ Table.First (EfiMemoryDescriptor.Contains (rangeOf a n)) lib.descriptors desc := by
  rw [findDescriptorForRange]
  by_cases h : n = 0 ∨ a > maxUint64 - n
  · rw [if_pos h]
    refine iff_of_false (by simp) ?_
    rintro ⟨hn, hf⟩
    obtain ⟨⟨-, hw⟩, -, hstop⟩ := hf.holds
    simp only [EfiMemoryDescriptor.extent, rangeOf, Span.stop] at hstop
    rw [guard_iff] at h
    omega
  · rw [if_neg h]
    rw [guard_iff] at h
    rw [Table.find?_eq_some_iff fun x => EfiMemoryDescriptor.containsRange_iff (by omega)]
    exact ⟨fun hf => ⟨by omega, hf⟩, And.right⟩

/-! ## Queries -/

section
variable (bs : BootServices)

/-- The protocol the library uses, located or not. -/
def MemLib.protocol (lib : MemLib) : Option MemoryAttributeProtocol :=
  (locateMemoryAttributeProtocol bs lib).gMemoryAttributeProtocol

/-- The protocol is present and answers the range with `attributes`. -/
def Answers (protocol : Option MemoryAttributeProtocol) (a n attributes : NxU64) : Prop :=
  ∃ getMemoryAttributes, protocol = some getMemoryAttributes ∧
    efiError (getMemoryAttributes a n).1 = false ∧ (getMemoryAttributes a n).2 = attributes

/-- The range has a descriptor and the protocol's attributes. -/
structure Granted (lib : MemLib) (a n : NxU64) (desc : EfiMemoryDescriptor) (attributes : NxU64) :
    Prop where
  pos : 0 < n.toNat
  first : Table.First (EfiMemoryDescriptor.Contains (rangeOf a n)) lib.descriptors desc
  answers : Answers (lib.protocol bs) a n attributes

/-- The libraries have the same descriptors and the same protocol. -/
structure SameMap (lib lib' : MemLib) : Prop where
  descriptors : lib'.descriptors = lib.descriptors
  protocol : lib'.protocol bs = lib.protocol bs

variable {bs}

theorem SameMap.refl (lib : MemLib) : SameMap bs lib lib := ⟨rfl, rfl⟩

theorem SameMap.trans {lib₁ lib₂ lib₃ : MemLib} (h : SameMap bs lib₁ lib₂)
    (h' : SameMap bs lib₂ lib₃) : SameMap bs lib₁ lib₃ :=
  ⟨h'.1.trans h.1, h'.2.trans h.2⟩

theorem locate_descriptors (lib : MemLib) :
    (locateMemoryAttributeProtocol bs lib).descriptors = lib.descriptors := by
  rw [locateMemoryAttributeProtocol]; split_ifs <;> rfl

theorem locate_located (lib : MemLib) :
    (locateMemoryAttributeProtocol bs lib).gMemoryAttributeProtocolLocated = true := by
  rw [locateMemoryAttributeProtocol]; split_ifs with h
  · exact h
  all_goals rfl

theorem ite_located (lib : MemLib) :
    (if lib.gMemoryAttributeProtocolLocated = true then lib
      else locateMemoryAttributeProtocol bs lib) = locateMemoryAttributeProtocol bs lib := by
  split_ifs with h
  · rw [locateMemoryAttributeProtocol, if_pos h]
  · rfl

variable (bs) in
theorem locate_sameMap (lib : MemLib) : SameMap bs lib (locateMemoryAttributeProtocol bs lib) where
  descriptors := locate_descriptors lib
  protocol := by
    rw [MemLib.protocol, MemLib.protocol]
    nth_rewrite 1 [locateMemoryAttributeProtocol]
    rw [if_pos (locate_located lib)]

theorem SameMap.granted {lib lib' : MemLib} {a n attributes : NxU64} {desc : EfiMemoryDescriptor}
    (h : SameMap bs lib lib') :
    Granted bs lib' a n desc attributes ↔ Granted bs lib a n desc attributes := by
  constructor
  · rintro ⟨h1, h2, h3⟩; exact ⟨h1, h.1 ▸ h2, h.2 ▸ h3⟩
  · rintro ⟨h1, h2, h3⟩; exact ⟨h1, h.1.symm ▸ h2, h.2.symm ▸ h3⟩

theorem SameMap.findDescriptorForRange {lib lib' : MemLib} (h : SameMap bs lib lib') (a n : NxU64) :
    findDescriptorForRange lib' a n = UefiNexus.findDescriptorForRange lib a n := by
  rw [UefiNexus.findDescriptorForRange, UefiNexus.findDescriptorForRange, h.descriptors]

theorem Granted.unique {lib : MemLib} {a n attributes attributes' : NxU64}
    {desc desc' : EfiMemoryDescriptor} (h : Granted bs lib a n desc attributes)
    (h' : Granted bs lib a n desc' attributes') : desc = desc' ∧ attributes = attributes' := by
  obtain ⟨f, hf, -, rfl⟩ := h.answers
  obtain ⟨g, hg, -, rfl⟩ := h'.answers
  rw [hf, Option.some_inj] at hg
  exact ⟨h.first.unique h'.first, by rw [hg]⟩

/-- The access of a range with a descriptor and attributes. -/
def grantedAccess (status : EfiStatus) (desc : EfiMemoryDescriptor) (attributes : NxU64) :
    EfiMemoryAccessInfo where
  queryStatus := status
  attributes := attributes
  readAllowed := desc.type ∈ readableTypes && attributes &&& efiMemoryRp = 0
  writeAllowed := desc.type ∈ writableTypes && attributes &&& efiMemoryRo = 0
  executeAllowed := attributes &&& efiMemoryXp = 0
  accessKnown := true

theorem Granted.query {lib : MemLib} {a n attributes : NxU64} {desc : EfiMemoryDescriptor}
    (h : Granted bs lib a n desc attributes) :
    ∃ status, queryMemoryAccess bs lib a n =
      (efiSuccess, grantedAccess status desc attributes, locateMemoryAttributeProtocol bs lib) := by
  obtain ⟨f, hf, hok, rfl⟩ := h.answers
  have hfind := findDescriptorForRange_eq_some.2 ⟨h.pos, h.first⟩
  have hguard : ¬ (n = 0 ∨ a > maxUint64 - n) := by
    intro hg; rw [UefiNexus.findDescriptorForRange, if_pos hg] at hfind; simp at hfind
  have hfind' : findDescriptorForRange (locateMemoryAttributeProtocol bs lib) a n = some desc := by
    rw [(locate_sameMap bs lib).findDescriptorForRange, hfind]
  refine ⟨(f a n).1, ?_⟩
  rw [MemLib.protocol] at hf
  simp only [queryMemoryAccess, if_neg hguard, hfind, ite_located, hf, hok, isToolRangeReadable,
    isToolRangeWritable, hfind', grantedAccess, Bool.false_eq_true, not_false_eq_true, if_true]

/-- A query whose access is not known allows nothing. -/
theorem query_not_granted {lib : MemLib} {a n : NxU64}
    (h : ∀ desc attributes, ¬ Granted bs lib a n desc attributes) :
    ∃ status info lib', queryMemoryAccess bs lib a n = (status, info, lib') ∧
      info.accessKnown = false ∧ info.readAllowed = false ∧ info.writeAllowed = false ∧
      SameMap bs lib lib' := by
  rw [queryMemoryAccess]
  by_cases hg : n = 0 ∨ a > maxUint64 - n
  · rw [if_pos hg]
    exact ⟨_, _, _, rfl, rfl, rfl, rfl, .refl lib⟩
  rw [if_neg hg]
  rcases hf : findDescriptorForRange lib a n with _ | desc
  · exact ⟨_, _, _, rfl, rfl, rfl, rfl, .refl lib⟩
  simp only [ite_located]
  have hsame := locate_sameMap bs lib
  rcases hp : (locateMemoryAttributeProtocol bs lib).gMemoryAttributeProtocol with _ | f
  · exact ⟨_, _, _, rfl, rfl, rfl, rfl, hsame⟩
  rcases hok : efiError (f a n).1 with _ | _
  · obtain ⟨hpos, hfirst⟩ := findDescriptorForRange_eq_some.1 hf
    exact absurd ⟨hpos, hfirst, f, hp, hok, rfl⟩ (h desc (f a n).2)
  · simp only [hok]
    exact ⟨_, _, _, rfl, rfl, rfl, rfl, hsame⟩

variable (bs) in
/-- The two outcomes of a query. -/
theorem query_cases (lib : MemLib) (a n : NxU64) :
    (∃ desc attributes status, Granted bs lib a n desc attributes ∧
      queryMemoryAccess bs lib a n =
        (efiSuccess, grantedAccess status desc attributes, locateMemoryAttributeProtocol bs lib)) ∨
    ((∀ desc attributes, ¬ Granted bs lib a n desc attributes) ∧
      ∃ status info lib', queryMemoryAccess bs lib a n = (status, info, lib') ∧
        info.accessKnown = false ∧ info.readAllowed = false ∧ info.writeAllowed = false ∧
        SameMap bs lib lib') := by
  by_cases h : ∃ desc attributes, Granted bs lib a n desc attributes
  · obtain ⟨desc, attributes, h⟩ := h
    obtain ⟨status, hq⟩ := h.query
    exact Or.inl ⟨desc, attributes, status, h, hq⟩
  · have h' : ∀ desc attributes, ¬ Granted bs lib a n desc attributes :=
      fun desc attributes hd => h ⟨desc, attributes, hd⟩
    exact Or.inr ⟨h', query_not_granted h'⟩

variable (bs) in
theorem query_sameMap (lib : MemLib) (a n : NxU64) :
    SameMap bs lib (queryMemoryAccess bs lib a n).2.2 := by
  obtain ⟨_, _, _, -, hq⟩ | ⟨-, _, _, _, hq, -, -, -, hsame⟩ := query_cases bs lib a n
  · rw [hq]; exact locate_sameMap bs lib
  · rw [hq]; exact hsame

/-- **The access of a range is known** exactly if the range has a descriptor and
    attributes. -/
theorem accessKnown_iff {lib : MemLib} {a n : NxU64} :
    (queryMemoryAccess bs lib a n).2.1.accessKnown = true ↔
      ∃ desc attributes, Granted bs lib a n desc attributes := by
  obtain ⟨desc, attributes, _, hg, hq⟩ | ⟨hn, _, info, _, hq, hk, -⟩ :=
    query_cases bs lib a n
  · rw [hq]; exact iff_of_true rfl ⟨desc, attributes, hg⟩
  · rw [hq]
    refine iff_of_false ?_ fun ⟨desc, attributes, hg⟩ => hn desc attributes hg
    simp [hk]

theorem isRangeValid_iff {lib : MemLib} {a n : NxU64} :
    (isRangeValid bs lib a n).1 = true ↔ ∃ desc attributes, Granted bs lib a n desc attributes ∧
      desc.type ∈ readableTypes ∧ attributes &&& efiMemoryRp = 0 := by
  obtain ⟨desc, attributes, _, hg, hq⟩ | ⟨hn, _, info, _, hq, -, hr, -⟩ :=
    query_cases bs lib a n
  · have : (isRangeValid bs lib a n).1 = true ↔
        desc.type ∈ readableTypes ∧ attributes &&& efiMemoryRp = 0 := by
      simp [isRangeValid, hq, grantedAccess, efiError, efiSuccess]
    rw [this]
    constructor
    · rintro ⟨ht, hrp⟩; exact ⟨desc, attributes, hg, ht, hrp⟩
    · rintro ⟨_, _, hg', ht, hrp⟩
      obtain ⟨rfl, rfl⟩ := hg.unique hg'
      exact ⟨ht, hrp⟩
  · refine iff_of_false ?_ fun ⟨desc, attributes, hg, _⟩ => hn desc attributes hg
    simp [isRangeValid, hq, hr]

theorem isRangeWritable_iff {lib : MemLib} {a n : NxU64} :
    (isRangeWritable bs lib a n).1 = true ↔ ∃ desc attributes,
      Granted bs lib a n desc attributes ∧
        desc.type ∈ writableTypes ∧ attributes &&& efiMemoryRo = 0 := by
  obtain ⟨desc, attributes, _, hg, hq⟩ | ⟨hn, _, info, _, hq, -, -, hw, -⟩ :=
    query_cases bs lib a n
  · have : (isRangeWritable bs lib a n).1 = true ↔
        desc.type ∈ writableTypes ∧ attributes &&& efiMemoryRo = 0 := by
      simp [isRangeWritable, hq, grantedAccess, efiError, efiSuccess]
    rw [this]
    constructor
    · rintro ⟨ht, hro⟩; exact ⟨desc, attributes, hg, ht, hro⟩
    · rintro ⟨_, _, hg', ht, hro⟩
      obtain ⟨rfl, rfl⟩ := hg.unique hg'
      exact ⟨ht, hro⟩
  · refine iff_of_false ?_ fun ⟨desc, attributes, hg, _⟩ => hn desc attributes hg
    simp [isRangeWritable, hq, hw]

/-! ## Reads and writes -/

/-- The widths 1, 2, 4 and 8. -/
def WidthOk (width : NxUintn) : Prop := width = 1 ∨ width = 2 ∨ width = 4 ∨ width = 8

theorem isSupportedWidth_iff {width : NxUintn} : isSupportedWidth width = true ↔ WidthOk width := by
  simp only [isSupportedWidth, WidthOk, Bool.or_eq_true, decide_eq_true_eq, or_assoc]

theorem WidthOk.powTwo {width : NxUintn} (h : WidthOk width) : Align.PowTwo width := by
  obtain rfl | rfl | rfl | rfl := h
  · exact ⟨0, rfl⟩
  · exact ⟨1, rfl⟩
  · exact ⟨2, rfl⟩
  · exact ⟨3, rfl⟩

theorem WidthOk.toNat_le {width : NxUintn} (h : WidthOk width) : width.toNat ≤ 8 := by
  obtain rfl | rfl | rfl | rfl := h <;> decide

theorem isAligned_iff {a : NxU64} {width : NxUintn} (h : WidthOk width) :
    isAligned a width = true ↔ width.toNat ∣ a.toNat := by
  rw [isAligned, decide_eq_true_eq, Align.and_mask_eq_zero h.powTwo]

/-- The chain over the widths of an access is one access of `width` bytes. -/
theorem WidthOk.chain {α : Type} {width : NxUintn} (h : WidthOk width) (f : ℕ → α) :
    (if width = 1 then f 1 else if width = 2 then f 2 else if width = 4 then f 4 else f 8) =
      f width.toNat := by
  obtain rfl | rfl | rfl | rfl := h <;> rfl

variable (bs) in
/-- **The policy of reads**: a supported width, a multiple of it as the address,
    a descriptor of a readable type, and attributes without `EFI_MEMORY_RP`. -/
def ReadAllowed (lib : MemLib) (a : NxU64) (width : NxUintn) : Prop :=
  WidthOk width ∧ width.toNat ∣ a.toNat ∧ ∃ desc attributes,
    Granted bs lib a width desc attributes ∧
      desc.type ∈ readableTypes ∧ attributes &&& efiMemoryRp = 0

variable (bs) in
/-- **The policy of writes**: as of reads, with the writable types and without
    `EFI_MEMORY_RO`. -/
def WriteAllowed (lib : MemLib) (a : NxU64) (width : NxUintn) : Prop :=
  WidthOk width ∧ width.toNat ∣ a.toNat ∧ ∃ desc attributes,
    Granted bs lib a width desc attributes ∧
      desc.type ∈ writableTypes ∧ attributes &&& efiMemoryRo = 0

/-- A read by the policy. -/
theorem memRead_of_allowed {lib : MemLib} (memory : PhysMem) {a : NxU64} {width : NxUintn}
    (old : NxU64) (h : ReadAllowed bs lib a width) :
    ∃ lib', memRead bs lib memory a width (some old) =
        (efiSuccess, some (BitVec.ofNat 64 (ByteMem.load memory a width.toNat)), lib') ∧
      SameMap bs lib lib' := by
  obtain ⟨hw, hd, hg⟩ := h
  have hv := isRangeValid_iff.2 hg
  refine ⟨(isRangeValid bs lib a width).2, ?_, query_sameMap bs lib a width⟩
  have hs := isSupportedWidth_iff.2 hw
  have ha := (isAligned_iff hw).2 hd
  simp only [memRead, hs, hv, ha, not_true_eq_false, if_false]
  exact hw.chain fun n =>
    (efiSuccess, some (BitVec.ofNat 64 (ByteMem.load memory a n)), (isRangeValid bs lib a width).2)

/-- A read against the policy. -/
theorem memRead_of_not_allowed {lib : MemLib} (memory : PhysMem) {a : NxU64} {width : NxUintn}
    (old : NxU64) (h : ¬ ReadAllowed bs lib a width) :
    ∃ status lib', memRead bs lib memory a width (some old) = (status, some 0, lib') ∧
      efiError status = true ∧ SameMap bs lib lib' := by
  have hsame := query_sameMap bs lib a width
  simp only [memRead]
  by_cases hs : isSupportedWidth width = true
  · have hw := isSupportedWidth_iff.1 hs
    rw [if_neg (by simp [hs])]
    by_cases hv : (isRangeValid bs lib a width).1 = true
    · rw [if_neg (by simp [hv])]
      have ha : ¬ isAligned a width = true := fun ha =>
        h ⟨hw, (isAligned_iff hw).1 ha, isRangeValid_iff.1 hv⟩
      rw [if_pos ha]
      exact ⟨_, _, rfl, rfl, hsame⟩
    · rw [if_pos hv]
      exact ⟨_, _, rfl, rfl, hsame⟩
  · rw [if_pos hs]
    exact ⟨_, _, rfl, rfl, .refl lib⟩

/-- A write by the policy. -/
theorem memWrite_of_allowed {lib : MemLib} (memory : PhysMem) {a : NxU64} {width : NxUintn}
    (value : NxU64) (h : WriteAllowed bs lib a width) :
    ∃ lib', memWrite bs lib memory a width value =
        (efiSuccess, ByteMem.store memory a width.toNat value.toNat, lib') ∧
      SameMap bs lib lib' := by
  obtain ⟨hw, hd, hg⟩ := h
  have hv := isRangeWritable_iff.2 hg
  refine ⟨(isRangeWritable bs lib a width).2, ?_, query_sameMap bs lib a width⟩
  have hs := isSupportedWidth_iff.2 hw
  have ha := (isAligned_iff hw).2 hd
  simp only [memWrite, hs, hv, ha, not_true_eq_false, if_false]
  exact hw.chain fun n =>
    (efiSuccess, ByteMem.store memory a n value.toNat, (isRangeWritable bs lib a width).2)

/-- A write against the policy. -/
theorem memWrite_of_not_allowed {lib : MemLib} (memory : PhysMem) {a : NxU64} {width : NxUintn}
    (value : NxU64) (h : ¬ WriteAllowed bs lib a width) :
    ∃ status lib', memWrite bs lib memory a width value = (status, memory, lib') ∧
      efiError status = true ∧ SameMap bs lib lib' := by
  have hsame := query_sameMap bs lib a width
  simp only [memWrite]
  by_cases hs : isSupportedWidth width = true
  · have hw := isSupportedWidth_iff.1 hs
    rw [if_neg (by simp [hs])]
    by_cases hv : (isRangeWritable bs lib a width).1 = true
    · rw [if_neg (by simp [hv])]
      have ha : ¬ isAligned a width = true := fun ha =>
        h ⟨hw, (isAligned_iff hw).1 ha, isRangeWritable_iff.1 hv⟩
      rw [if_pos ha]
      exact ⟨_, _, rfl, rfl, hsame⟩
    · rw [if_pos hv]
      exact ⟨_, _, rfl, rfl, hsame⟩
  · rw [if_pos hs]
    exact ⟨_, _, rfl, rfl, .refl lib⟩

end

end UefiNexus
