/-
  The access of a range is the access of its parts.

  With a map of disjoint descriptors, and a protocol that answers the parts of a
  range as it answers the range (`AnswersParts`), a known access is the access of
  every part.  The page title (`PageMemControllerUpdatePageType`) and the list of
  ranges (`DumpMemoryRanges`) therefore show the same access, and it predicts
  which accesses of the page succeed.
-/
import UefiNexus.Proof.AccessPolicy
import UefiNexus.PageMem.Controller
import UefiNexus.Uefi.Adapters
import UefiNexus.NexusMemLib.Firmware

namespace UefiNexus

/-- The descriptors of the map are disjoint, malformed ones apart. -/
def MemLib.Disjoint (lib : MemLib) : Prop :=
  Table.PairwiseDisjoint EfiMemoryDescriptor.WellFormed EfiMemoryDescriptor.extent lib.descriptors

/-- A non-empty part of a range the protocol answers has the same answer. -/
def AnswersParts (protocol : Option MemoryAttributeProtocol) : Prop :=
  ∀ a n attributes, Answers protocol a n attributes → ∀ a' n' : NxU64, 0 < n'.toNat →
    (rangeOf a' n').Within (rangeOf a n) → Answers protocol a' n' attributes

/-- Both accesses are known, and they allow the same. -/
structure SameAccess (x y : NxMemoryAccess) : Prop where
  known : x.accessKnown = true
  known' : y.accessKnown = true
  read : x.readAllowed = y.readAllowed
  write : x.writeAllowed = y.writeAllowed
  execute : x.executeAllowed = y.executeAllowed

/-- The shown text of an access is what it allows. -/
theorem SameAccess.format {x y : NxMemoryAccess} (h : SameAccess x y) (buffer : List NxChar)
    (n : ℕ) : uefiMemoryAccessFormat x buffer n = uefiMemoryAccessFormat y buffer n := by
  simp only [uefiMemoryAccessFormat, h.known, h.known', h.read, h.write]

section
variable {bs : BootServices} {lib : MemLib} {a n a' n' attributes : NxU64}
  {desc : EfiMemoryDescriptor}

theorem Granted.part (hd : lib.Disjoint) (hp : AnswersParts (lib.protocol bs))
    (h : Granted bs lib a n desc attributes) (hpos : 0 < n'.toNat)
    (hw : (rangeOf a' n').Within (rangeOf a n)) : Granted bs lib a' n' desc attributes where
  pos := hpos
  first := Table.First.part hd h.first hw hpos
  answers := hp _ _ _ h.answers _ _ hpos hw

/-- A query with a grant shows what the descriptor and the attributes allow. -/
theorem Granted.sameAccess {lib' : MemLib} (h : Granted bs lib a n desc attributes)
    (h' : Granted bs lib' a' n' desc attributes) :
    SameAccess (toMemoryAccess (queryMemoryAccess bs lib a n).2.1)
      (toMemoryAccess (queryMemoryAccess bs lib' a' n').2.1) := by
  obtain ⟨_, hq⟩ := h.query
  obtain ⟨_, hq'⟩ := h'.query
  rw [hq, hq']
  exact ⟨rfl, rfl, rfl, rfl, rfl⟩

/-- **The access of a part.** -/
theorem access_part (hd : lib.Disjoint) (hp : AnswersParts (lib.protocol bs))
    (hk : (queryMemoryAccess bs lib a n).2.1.accessKnown = true) (hpos : 0 < n'.toNat)
    (hw : (rangeOf a' n').Within (rangeOf a n)) :
    SameAccess (toMemoryAccess (queryMemoryAccess bs lib a' n').2.1)
      (toMemoryAccess (queryMemoryAccess bs lib a n).2.1) := by
  obtain ⟨desc, attributes, hg⟩ := accessKnown_iff.1 hk
  exact (hg.part hd hp hpos hw).sameAccess hg

theorem readAllowed_iff {width : NxUintn} (h : Granted bs lib a width desc attributes)
    (hwidth : WidthOk width) (hdvd : width.toNat ∣ a.toNat) :
    ReadAllowed bs lib a width ↔ desc.type ∈ readableTypes ∧ attributes &&& efiMemoryRp = 0 := by
  constructor
  · rintro ⟨-, -, _, _, h', ht⟩
    obtain ⟨rfl, rfl⟩ := h.unique h'
    exact ht
  · intro ht; exact ⟨hwidth, hdvd, desc, attributes, h, ht⟩

theorem writeAllowed_iff {width : NxUintn} (h : Granted bs lib a width desc attributes)
    (hwidth : WidthOk width) (hdvd : width.toNat ∣ a.toNat) :
    WriteAllowed bs lib a width ↔ desc.type ∈ writableTypes ∧ attributes &&& efiMemoryRo = 0 := by
  constructor
  · rintro ⟨-, -, _, _, h', ht⟩
    obtain ⟨rfl, rfl⟩ := h.unique h'
    exact ht
  · intro ht; exact ⟨hwidth, hdvd, desc, attributes, h, ht⟩

end

/-! ## The title and the list -/

/-- The access of the title is that of a query of the page. -/
theorem updatePageType_uefi (fw : Firmware) (pageState : PageMemPageState) (w : UefiWorld) :
    ∃ pageState' w',
      pageMemControllerUpdatePageType pageState (uefiAdapters fw) w =
        (some (.success, pageState'), w') ∧
      pageState'.pageAccess = toMemoryAccess
        (queryMemoryAccess fw.bootServices w.memLib pageState.cursorState.address pageSize).2.1 := by
  have hlookup : ∃ type found, memAdapterGetMemoryTypeAtAddress pageState.cursorState.address w =
      (some (.success, type, found), w) := by
    simp only [memAdapterGetMemoryTypeAtAddress]
    rw [Prog.bind_of_some (Prog.get_apply w)]
    rcases (w.gCoreDescriptors.take w.gCoreDescriptorCount.toNat).find?
      (NxMemoryDescriptor.containsAddress pageState.cursorState.address) with _ | desc
    · exact ⟨_, _, rfl⟩
    · exact ⟨_, _, rfl⟩
  obtain ⟨type, found, hlookup⟩ := hlookup
  simp only [pageMemControllerUpdatePageType, uefiAdapters, memoryAdapter]
  rw [Prog.bind_of_some hlookup]
  exact ⟨_, _, rfl, rfl⟩

/-- What the list shows for a descriptor, when it is known, is a query of the
    descriptor's addresses. -/
theorem rangeAccess_known {fw : Firmware} {desc : EfiMemoryDescriptor} {w w' : UefiWorld}
    {listed : NxMemoryAccess} (h : rangeAccess fw desc w = (some listed, w'))
    (hk : listed.accessKnown = true) :
    ∃ n : NxU64, rangeOf desc.physicalStart n = desc.extent ∧
      listed = toMemoryAccess
        (queryMemoryAccess fw.bootServices w.memLib desc.physicalStart n).2.1 := by
  rw [rangeAccess] at h
  split_ifs at h with hpages
  · refine ⟨desc.numberOfPages <<< 12, ?_, ?_⟩
    · simp only [maxUint64] at hpages
      have : (desc.numberOfPages <<< 12).toNat = desc.numberOfPages.toNat * 4096 := by bv_omega
      simp only [rangeOf, EfiMemoryDescriptor.extent, this]
    · exact (Option.some.inj (congrArg Prod.fst h)).symm
  · obtain ⟨rfl, -⟩ := Prog.pure_eq_some.1 h
    exact absurd hk (by simp)

/-- **The access shown for a range is the access of its parts.**  If the access
    of a range is known, so is that of every non-empty part, and it is the same.
    Hence the title of a page shows the access the list shows for the descriptor
    around the page, and predicts which accesses of the page succeed. -/
theorem access_of_parts (fw : Firmware) (lib : MemLib) (hd : lib.Disjoint)
    (hp : AnswersParts (lib.protocol fw.bootServices)) :
    (∀ a n a' n' : NxU64,
      (queryMemoryAccess fw.bootServices lib a n).1 = efiSuccess →
      (queryMemoryAccess fw.bootServices lib a n).2.1.accessKnown = true →
      0 < n'.toNat → (rangeOf a' n').Within (rangeOf a n) →
        SameAccess (toMemoryAccess (queryMemoryAccess fw.bootServices lib a' n').2.1)
          (toMemoryAccess (queryMemoryAccess fw.bootServices lib a n).2.1)) ∧
    (∀ (pageState : PageMemPageState) (w : UefiWorld), SameMap fw.bootServices lib w.memLib →
      ∃ pageState' w',
        pageMemControllerUpdatePageType pageState (uefiAdapters fw) w =
          (some (.success, pageState'), w') ∧
        -- the list of ranges, shown at any other time
        (∀ desc ∈ lib.descriptors, ∀ v v' listed, SameMap fw.bootServices lib v.memLib →
          rangeAccess fw desc v = (some listed, v') → listed.accessKnown = true →
          (rangeOf pageState.cursorState.address pageSize).Within desc.extent →
            SameAccess pageState'.pageAccess listed ∧
            ∀ buffer n, uefiMemoryAccessFormat pageState'.pageAccess buffer n =
              uefiMemoryAccessFormat listed buffer n) ∧
        -- the accesses of the page
        (pageState'.pageAccess.accessKnown = true →
          ∀ (memory : PhysMem) (a : NxU64) (width : NxUintn), WidthOk width →
            width.toNat ∣ a.toNat →
            (rangeOf a width).Within (rangeOf pageState.cursorState.address pageSize) →
              (∀ old, (memRead fw.bootServices lib memory a width (some old)).1 = efiSuccess ↔
                pageState'.pageAccess.readAllowed = true) ∧
              (∀ value, (memWrite fw.bootServices lib memory a width value).1 = efiSuccess ↔
                pageState'.pageAccess.writeAllowed = true))) := by
  refine ⟨fun a n a' n' _ hk hpos hw => access_part hd hp hk hpos hw, fun pageState w hsame => ?_⟩
  obtain ⟨pageState', w', hrun, htitle⟩ := updatePageType_uefi fw pageState w
  refine ⟨pageState', w', hrun, fun desc hdesc v v' listed hv hlist hk hpage => ?_,
    fun hk memory a width hwidth hdvd hw => ?_⟩
  · obtain ⟨n, hn, rfl⟩ := rangeAccess_known hlist hk
    obtain ⟨desc', attributes, hg⟩ := accessKnown_iff.1 hk
    have hpart := (hv.granted.1 hg).part hd hp (by decide) (hn ▸ hpage)
    have hsa := (hsame.granted.2 hpart).sameAccess hg
    rw [← htitle] at hsa
    exact ⟨hsa, hsa.format⟩
  · rw [htitle] at hk ⊢
    obtain ⟨desc, attributes, hg⟩ := accessKnown_iff.1 hk
    obtain ⟨status, hq⟩ := hg.query
    have hpart := (hsame.granted.1 hg).part hd hp hwidth.powTwo.pos hw
    have hread := readAllowed_iff hpart hwidth hdvd
    have hwrite := writeAllowed_iff hpart hwidth hdvd
    simp only [memRead_success_iff, memWrite_success_iff, hread, hwrite, hq, toMemoryAccess,
      grantedAccess, Bool.and_eq_true, decide_eq_true_eq, implies_true, and_self]

/-- Conventional memory, ACPI tables and a descriptor whose end overflows. -/
def mixedMap : List EfiMemoryDescriptor :=
  [⟨9, 0x3000, 1, 0⟩, ⟨7, 0xFFFFFFFFFFFFF000, 2, 0⟩, ⟨7, 0x1000, 2, 0⟩]

/-- Everything is read-only. -/
def readOnlyProtocol : MemoryAttributeProtocol := fun _ _ => (efiSuccess, efiMemoryRo)

theorem access_of_parts_mixed :
    SameAccess
      (toMemoryAccess (queryMemoryAccess
        (Firmware.ofMap (.ofDescriptors mixedMap (by decide)) (some readOnlyProtocol)
          fun _ => 0).bootServices
        (.ofDescriptors mixedMap (some readOnlyProtocol)) 0x1F00 0x100).2.1)
      (toMemoryAccess (queryMemoryAccess
        (Firmware.ofMap (.ofDescriptors mixedMap (by decide)) (some readOnlyProtocol)
          fun _ => 0).bootServices
        (.ofDescriptors mixedMap (some readOnlyProtocol)) 0x1000 0x2000).2.1) := by
  refine (access_of_parts _ (.ofDescriptors mixedMap (some readOnlyProtocol)) ?_ ?_).1
    0x1000 0x2000 0x1F00 0x100 (by decide) (by decide) (by decide) (by decide)
  · rw [MemLib.Disjoint, descriptors_ofDescriptors (by decide)]
    simp only [mixedMap, Table.PairwiseDisjoint, EfiMemoryDescriptor.WellFormed,
      EfiMemoryDescriptor.extent, Span.Disjoint, Span.stop]
    decide
  · rintro a n attributes ⟨f, hf, hok, rfl⟩ a' n' - -
    refine ⟨f, hf, ?_⟩
    obtain rfl : readOnlyProtocol = f := Option.some.inj hf
    exact ⟨by simp [readOnlyProtocol, efiError, efiSuccess], rfl⟩

end UefiNexus
