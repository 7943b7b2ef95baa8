/-
  The map of PageMem is a copy of NexusMemLib's.

  The bridge and the memory adapter copy the descriptors into arrays of 128
  entries.  After an initialization that succeeds, the Core descriptors are the
  images of the first 128 descriptors of NexusMemLib (`memAdapterInit_copied`), so
  that for a map of at most 128 descriptors both views agree: on the descriptor
  of an address and on the blocks that can be shown.
-/
import UefiNexus.Proof.Keys
import UefiNexus.Proof.Machine
import UefiNexus.Proof.AccessParts
import UefiNexus.Proof.Navigation

namespace UefiNexus

/-- The Core descriptor of an EFI descriptor. -/
def toCore (desc : EfiMemoryDescriptor) : NxMemoryDescriptor :=
  ⟨mapMemoryType desc.type, desc.physicalStart, desc.numberOfPages, desc.attr, desc.type⟩

theorem toCore_eq (desc : EfiMemoryDescriptor) :
    toCore desc = toCoreDescriptor (toBridgeDescriptor desc) := rfl

/-! ## The copies -/

theorem mul_udiv_self {n : ℕ} (h : n ≤ maxDescriptors) :
    BitVec.ofNat 64 n * bridgeDescriptorSize / bridgeDescriptorSize = BitVec.ofNat 64 n := by
  simp only [maxDescriptors] at h
  have hn : (BitVec.ofNat 64 n).toNat = n := by
    rw [BitVec.toNat_ofNat, Nat.mod_eq_of_lt (by omega)]
  have h32 : bridgeDescriptorSize.toNat = 32 := rfl
  apply BitVec.eq_of_toNat_eq
  rw [BitVec.toNat_udiv, BitVec.toNat_mul, hn, h32, Nat.mod_eq_of_lt (by omega),
    Nat.mul_div_cancel _ (by omega)]

/-- What a successful initialization of the bridge leaves. -/
theorem uefiBridgeInitMemoryMap_success {fw : Firmware} {w : UefiWorld}
    (h : (uefiBridgeInitMemoryMap fw w).1 = some .success) :
    ∃ w' copied, uefiBridgeInitMemoryMap fw w = (some .success, w') ∧
      copied = (w'.memLib.descriptors.take maxDescriptors).map toBridgeDescriptor ∧
      w'.gBridgeDescriptors.take copied.length = copied ∧
      w'.gBridgeMemoryMapSize = BitVec.ofNat 64 copied.length * bridgeDescriptorSize ∧
      w'.gBridgeDescriptorSize = bridgeDescriptorSize := by
  simp only [uefiBridgeInitMemoryMap] at h ⊢
  generalize initMemoryMap fw.bootServices (fw.mapServices w.inits) w.memLib = r at h ⊢
  obtain ⟨status, lib⟩ := r
  dsimp only at h ⊢
  by_cases herr : efiError status = true
  · rw [if_pos herr, Option.some_inj, efiStatusToUiStatus_eq_success, herr] at h
    simp at h
  rw [if_neg herr] at h ⊢
  by_cases hnull : lib.gMemMap.isNone = true ∨ lib.gDescSize = 0
  · rw [if_pos hnull] at h; simp at h
  rw [if_neg hnull]
  exact ⟨_, _, rfl, rfl, List.take_left, rfl, rfl⟩

/-- The memory adapter has the images of the first 128 descriptors. -/
def Copied (w : UefiWorld) : Prop :=
  coreDescriptors w = (w.memLib.descriptors.take maxDescriptors).map toCore

theorem SameMaps.copied {bs : BootServices} {w w' : UefiWorld} (h : SameMaps bs w w')
    (hw : Copied w) : Copied w' := by
  rw [Copied, h.core, h.lib.descriptors]; exact hw

/-- **A successful initialization copies the map.** -/
theorem memAdapterInit_copied {fw : Firmware} {w : UefiWorld}
    (h : (memAdapterInit fw w).1 = some .success) : Copied (memAdapterInit fw w).2 := by
  have hbridge : (uefiBridgeInitMemoryMap fw w).1 = some .success := by
    rcases hb : uefiBridgeInitMemoryMap fw w with ⟨_ | status, w'⟩
    · rw [memAdapterInit, Prog.bind_of_none hb] at h; simp at h
    · rw [memAdapterInit, Prog.bind_of_some hb] at h
      cases status with
      | success => rfl
      | _ => simp [nxUiError] at h
  obtain ⟨w', copied, hb, hcopied, htake, hsize, hds⟩ := uefiBridgeInitMemoryMap_success hbridge
  have hlen : copied.length ≤ maxDescriptors := by
    rw [hcopied, List.length_map]; exact List.length_take_le _ _
  have hcount : (BitVec.ofNat 64 copied.length).toNat = copied.length := by
    simp only [maxDescriptors] at hlen
    rw [BitVec.toNat_ofNat, Nat.mod_eq_of_lt (by omega)]
  have hclamp : ¬ BitVec.ofNat 64 copied.length > BitVec.ofNat 64 maxDescriptors := by
    rw [gt_iff_lt, BitVec.lt_def, hcount]
    exact Nat.not_lt.2 hlen
  have hinit : (memAdapterInit fw w).2.memLib = w'.memLib ∧
      (memAdapterInit fw w).2.gCoreDescriptors = copied.map toCoreDescriptor ++
        w'.gCoreDescriptors.drop (copied.map toCoreDescriptor).length ∧
      (memAdapterInit fw w).2.gCoreDescriptorCount = BitVec.ofNat 64 copied.length := by
    rw [memAdapterInit, Prog.bind_of_some hb] at h ⊢
    simp only [nxUiError, ne_eq, not_true_eq_false, decide_false, Bool.false_eq_true, if_false]
      at h ⊢
    rw [Prog.bind_of_some (Prog.get_apply w')] at h ⊢
    by_cases hzero : w'.gBridgeMemoryMapSize = 0 ∨ w'.gBridgeDescriptorSize = 0
    · rw [if_pos hzero] at h
      simp [Prog.modify, bind, pure] at h
    · rw [if_neg hzero, hsize, hds, mul_udiv_self hlen, if_neg hclamp, hcount, htake]
      exact ⟨rfl, rfl, rfl⟩
  obtain ⟨hlib, hdescs, hdescCount⟩ := hinit
  rw [Copied, coreDescriptors, hlib, hdescs, hdescCount, hcount, ← List.length_map (f := toCoreDescriptor),
    List.take_left, hcopied, List.map_map]
  exact List.map_congr_left fun desc _ => (toCore_eq desc).symm

/-! ## The same answers -/

/-- The test of the memory adapter, over the natural numbers. -/
theorem containsAddress_iff {address : NxU64} {desc : NxMemoryDescriptor} :
    desc.containsAddress address = true ↔
      (0 < desc.numberOfPages.toNat ∧
        desc.physicalStart.toNat + desc.numberOfPages.toNat * 4096 < 2 ^ 64) ∧
      desc.physicalStart.toNat ≤ address.toNat ∧
      address.toNat + 1 ≤ desc.physicalStart.toNat + desc.numberOfPages.toNat * 4096 := by
  rw [NxMemoryDescriptor.containsAddress]
  by_cases hpages : desc.numberOfPages = 0 ∨ desc.numberOfPages > maxUint64 >>> 12
  · rw [if_pos hpages]
    refine iff_of_false (by simp) fun h => ?_
    simp only [maxUint64] at hpages
    bv_omega
  rw [if_neg hpages]
  by_cases hover : desc.physicalStart > maxUint64 - desc.numberOfPages <<< 12
  · rw [if_pos hover]
    refine iff_of_false (by simp) fun h => ?_
    simp only [maxUint64] at hpages hover
    bv_omega
  rw [if_neg hover]
  simp only [maxUint64] at hpages hover
  simp only [ge_iff_le, Bool.and_eq_true, decide_eq_true_eq]
  constructor
  · intro h; bv_omega
  · intro h; bv_omega

/-- The memory adapter tests the image of a descriptor as NexusMemLib tests the
    descriptor for one byte. -/
theorem containsAddress_toCore {address : NxU64} {desc : EfiMemoryDescriptor} :
    (toCore desc).containsAddress address = true ↔ desc.Contains (rangeOf address 1) :=
  containsAddress_iff

section
variable {fw : Firmware} {w : UefiWorld}

/-- The type lookup of a copied map. -/
theorem Copied.lookup (hw : Copied w) (address : NxU64) :
    memAdapterGetMemoryTypeAtAddress address w =
      (some (match (w.memLib.descriptors.take maxDescriptors).find? fun desc =>
          (toCore desc).containsAddress address with
        | none => (.success, 0, false)
        | some desc => (.success, desc.type, true)), w) := by
  rw [memAdapterGetMemoryTypeAtAddress_eq, hw, List.find?_map]
  rcases hf : (w.memLib.descriptors.take maxDescriptors).find?
      (NxMemoryDescriptor.containsAddress address ∘ toCore) with _ | desc
  · rw [Function.comp_def] at hf; rw [hf]; rfl
  · rw [Function.comp_def] at hf; rw [hf]; rfl

theorem Copied.lookup_first (hw : Copied w) {address : NxU64} {desc : EfiMemoryDescriptor}
    (h : Table.First (EfiMemoryDescriptor.Contains (rangeOf address 1))
      (w.memLib.descriptors.take maxDescriptors) desc) :
    memAdapterGetMemoryTypeAtAddress address w = (some (.success, desc.type, true), w) := by
  rw [← Table.find?_eq_some_iff fun _ => containsAddress_toCore] at h
  rw [hw.lookup, h]

theorem Copied.lookup_none (hw : Copied w) {address : NxU64}
    (h : ∀ desc ∈ w.memLib.descriptors.take maxDescriptors,
      ¬ desc.Contains (rangeOf address 1)) :
    memAdapterGetMemoryTypeAtAddress address w = (some (.success, 0, false), w) := by
  have : (w.memLib.descriptors.take maxDescriptors).find? (fun desc =>
      (toCore desc).containsAddress address) = none := by
    rw [List.find?_eq_none]
    exact fun desc hd hc => h desc hd (containsAddress_toCore.1 hc)
  rw [hw.lookup, this]

/-- With at most 128 descriptors, the lookup is NexusMemLib's. -/
theorem Copied.lookup_eq (hw : Copied w) (hlen : w.memLib.descriptors.length ≤ maxDescriptors)
    (address : NxU64) :
    memAdapterGetMemoryTypeAtAddress address w =
      (some (match findDescriptorForRange w.memLib address 1 with
        | none => (.success, 0, false)
        | some desc => (.success, desc.type, true)), w) := by
  have htake := List.take_of_length_le hlen
  rcases hf : findDescriptorForRange w.memLib address 1 with _ | desc
  · refine hw.lookup_none fun desc hd hc => ?_
    classical
    have hex : ∃ d, w.memLib.descriptors.find?
        (fun d => decide (d.Contains (rangeOf address 1))) = some d :=
      Option.isSome_iff_exists.1
        (List.find?_isSome.2 ⟨desc, htake ▸ hd, by simpa using hc⟩)
    obtain ⟨d, hd'⟩ := hex
    rw [Table.find?_eq_some_iff fun _ => decide_eq_true_iff] at hd'
    have hsome : findDescriptorForRange w.memLib address 1 = some d :=
      findDescriptorForRange_eq_some.2 ⟨by decide, hd'⟩
    rw [hf] at hsome
    cases hsome
  · obtain ⟨-, hfirst⟩ := findDescriptorForRange_eq_some.1 hf
    exact hw.lookup_first (htake.symm ▸ hfirst)

/-- The title of a page. -/
theorem updatePageType_lookup (pageState : PageMemPageState) {type : NxU32} {found : Bool}
    (h : memAdapterGetMemoryTypeAtAddress pageState.cursorState.address w =
      (some (.success, type, found), w)) :
    ∃ pageState' w', pageMemControllerUpdatePageType pageState (uefiAdapters fw) w =
        (some (.success, pageState'), w') ∧
      pageState'.pageUefiMemoryType = type ∧ pageState'.pageHasMemoryDescriptor = found := by
  simp only [pageMemControllerUpdatePageType, uefiAdapters, memoryAdapter]
  rw [Prog.bind_of_some h]
  exact ⟨_, _, rfl, rfl, rfl⟩

/-- An allowed access has a descriptor at every address from which its own one reaches
    up to it. -/
theorem Granted.findDescriptor {bs : BootServices} {lib : MemLib} {a n attributes : NxU64}
    {desc : EfiMemoryDescriptor} (h : Granted bs lib a n desc attributes) {b : NxU64}
    (hstart : desc.physicalStart.toNat ≤ b.toNat) (hle : b.toNat ≤ a.toNat) :
    (findDescriptorForRange lib b 1).isSome = true := by
  obtain ⟨⟨hwf, -, hhigh⟩, hmem⟩ : desc.Contains (rangeOf a n) ∧ desc ∈ lib.descriptors :=
    ⟨h.first.holds, h.first.mem⟩
  have hpos := h.pos
  have h1 : (1 : NxU64).toNat = 1 := rfl
  have hone : desc.Contains (rangeOf b 1) := by
    refine ⟨hwf, hstart, ?_⟩
    simp only [rangeOf, Span.stop] at hhigh ⊢
    omega
  have hno : ¬ ((1 : NxU64) = 0 ∨ b > maxUint64 - 1) := by
    rw [guard_iff]
    have := h.no_wrap
    omega
  rw [findDescriptorForRange, if_neg hno, List.find?_isSome]
  refine ⟨desc, hmem, (EfiMemoryDescriptor.containsRange_iff ?_).2 hone⟩
  have := h.no_wrap
  omega

/-- The address is the page's, or one in the page of a map that starts at multiples of
    4 KiB. -/
def TitledBy (lib : MemLib) (page address : NxU64) : Prop :=
  address = page ∨ pageCoreAlignToPage address pageSize = page ∧
    ∀ desc ∈ lib.descriptors, 4096 ∣ desc.physicalStart.toNat

/-- Such a page has a descriptor if the address has an allowed access. -/
theorem Granted.titled {bs : BootServices} {lib : MemLib} {page a n attributes : NxU64}
    {desc : EfiMemoryDescriptor} (h : Granted bs lib a n desc attributes)
    (htitled : TitledBy lib page a) : (findDescriptorForRange lib page 1).isSome = true := by
  have hlow : desc.physicalStart.toNat ≤ a.toNat := h.first.holds.2.1
  rcases htitled with rfl | ⟨rfl, hal⟩
  · exact h.findDescriptor hlow (Nat.le_refl _)
  · have hbase : (pageCoreAlignToPage a pageSize).toNat = a.toNat - a.toNat % 256 :=
      Align.toNat_and_not_mask pageSize_powTwo
    obtain ⟨k, hk⟩ := hal desc h.first.mem
    exact h.findDescriptor (by omega) (by omega)

/-! ## Blocks -/

theorem mapMemoryType_browsable {type : NxU32} (h : isMemoryTypeBrowsable type = true) :
    ∀ start pages attr, isDescriptorValid ⟨mapMemoryType type, start, pages, attr, type⟩ = true := by
  intro start pages attr
  simp only [isMemoryTypeBrowsable, readableTypes, writableTypes, List.cons_append,
    List.nil_append, List.mem_cons, List.not_mem_nil, or_false, decide_eq_true_eq] at h
  rcases h with rfl | rfl | rfl | rfl | rfl | rfl | rfl | rfl | rfl | rfl | rfl <;> rfl

/-- A descriptor that NexusMemLib tests for a block has the block in PageMem. -/
theorem containsRange_toCore {desc : EfiMemoryDescriptor} {p e : NxU64}
    (h : desc.containsRange p e = true) :
    (match descriptorEnd (toCore desc) with
      | none => false
      | some descEnd => p ≥ (toCore desc).physicalStart && e ≤ descEnd) = true := by
  rw [EfiMemoryDescriptor.containsRange] at h
  rcases hend : desc.descriptorEnd with _ | descEnd
  · rw [hend] at h; cases h
  · rw [hend] at h
    obtain ⟨⟨hpos, hlt⟩, hstop⟩ := EfiMemoryDescriptor.descriptorEnd_eq_some.1 hend
    simp only [EfiMemoryDescriptor.extent, Span.stop] at hstop
    have hsize : (desc.numberOfPages <<< 12).toNat = desc.numberOfPages.toNat * 4096 := by
      bv_omega
    have hcore : descriptorEnd (toCore desc) = some descEnd := by
      rw [coreEnd_eq_some]
      simp only [toCore, hsize]
      exact ⟨hlt, hstop⟩
    rw [hcore]
    exact h

/-- **The pages NexusMemLib accepts are ranges of PageMem's map.** -/
theorem Copied.range_of_page (hw : Copied w)
    (hlen : w.memLib.descriptors.length ≤ maxDescriptors) {address : NxU64} {size : NxUintn}
    (h : w.memLib.isPageValid address size = true) :
    pageCoreIsRangeValid ⟨some (coreDescriptors w)⟩ (alignDown address size) size = true := by
  rw [Copied, List.take_of_length_le hlen] at hw
  simp only [MemLib.isPageValid] at h
  simp only [pageCoreIsRangeValid, hw]
  by_cases hsize : size = 0
  · rw [if_pos hsize] at h; cases h
  rw [if_neg hsize] at h ⊢
  by_cases hguard : alignDown address size > maxUint64 - size
  · rw [if_pos hguard] at h; cases h
  rw [if_neg hguard] at h ⊢
  rw [List.any_map, List.any_eq_true]
  obtain ⟨desc, hmem, hdesc⟩ := List.any_eq_true.1 h
  rw [Bool.and_eq_true] at hdesc
  refine ⟨desc, hmem, Bool.and_eq_true_iff.2 ⟨?_, containsRange_toCore hdesc.2⟩⟩
  exact mapMemoryType_browsable hdesc.1 _ _ _

end

/-- **The memory map reaches PageMem up to 128 descriptors.**  After an
    initialization that succeeds, and in every later state with the same map,
    PageMem gets the images of the first 128 descriptors in order, and looks
    types up among them.  With at most 128 descriptors that is the whole map: the
    lookup is NexusMemLib's, and the pages NexusMemLib accepts are in the map; the title
    of a page has a descriptor if its first address can be read or written, and if the
    descriptors start at multiples of 4 KiB, if any address in it can.  All states in
    which a run waits for a key have the map of its initialization. -/
theorem map_reaches_pageMem (fw : Firmware) (w : UefiWorld)
    (h : (memAdapterInit fw w).1 = some .success) :
    (∀ v, SameMaps fw.bootServices (memAdapterInit fw w).2 v →
      memAdapterGetMemoryMapDescriptors v =
        (some (some ((v.memLib.descriptors.take maxDescriptors).map toCore)), v) ∧
      (∀ address desc,
        Table.First (EfiMemoryDescriptor.Contains (rangeOf address 1))
          (v.memLib.descriptors.take maxDescriptors) desc →
        memAdapterGetMemoryTypeAtAddress address v = (some (.success, desc.type, true), v)) ∧
      (∀ address,
        (∀ desc ∈ v.memLib.descriptors.take maxDescriptors,
          ¬ desc.Contains (rangeOf address 1)) →
        memAdapterGetMemoryTypeAtAddress address v = (some (.success, 0, false), v)) ∧
      (v.memLib.descriptors.length ≤ maxDescriptors →
        memAdapterGetMemoryMapDescriptors v =
          (some (some (v.memLib.descriptors.map toCore)), v) ∧
        (∀ address, memAdapterGetMemoryTypeAtAddress address v =
          (some (match findDescriptorForRange v.memLib address 1 with
            | none => (.success, 0, false)
            | some desc => (.success, desc.type, true)), v)) ∧
        (∀ (pageState : PageMemPageState) (address : NxU64) (width : NxUintn) (memory : PhysMem)
          (value : NxU64),
          TitledBy v.memLib pageState.cursorState.address address →
          (memRead fw.bootServices v.memLib memory address width (some value)).1 = efiSuccess ∨
          (memWrite fw.bootServices v.memLib memory address width value).1 = efiSuccess →
          ∃ pageState' v', pageMemControllerUpdatePageType pageState (uefiAdapters fw) v =
            (some (.success, pageState'), v') ∧ pageState'.pageHasMemoryDescriptor = true) ∧
        (∀ address size, v.memLib.isPageValid address size = true →
          pageCoreIsRangeValid ⟨some (coreDescriptors v)⟩ (alignDown address size) size = true))) ∧
    (∀ n pageState pageState' v,
      runVisits (uefiAdapters fw) n pageState w = some (pageState', v) →
        SameMaps fw.bootServices (memAdapterInit fw w).2 v ∧
        pageState'.addressMap = ⟨some (coreDescriptors v)⟩) := by
  refine ⟨fun v hv => ?_, fun n pageState pageState' v hrun => ?_⟩
  · have hc : Copied v := hv.copied (memAdapterInit_copied h)
    have hdescs : memAdapterGetMemoryMapDescriptors v = (some (some (coreDescriptors v)), v) := rfl
    refine ⟨hdescs.trans (by rw [hc]), fun address desc => hc.lookup_first,
      fun address => hc.lookup_none, fun hlen => ⟨?_, hc.lookup_eq hlen, ?_,
        fun address size => hc.range_of_page hlen⟩⟩
    · rw [hdescs, hc, List.take_of_length_le hlen]
    intro pageState address width memory value htitled haccess
    have hfound : (findDescriptorForRange v.memLib pageState.cursorState.address 1).isSome := by
      rcases haccess with hr | hw
      · obtain ⟨-, -, desc, attributes, hg, -⟩ := memRead_success_iff.1 hr
        exact hg.titled htitled
      · obtain ⟨-, -, desc, attributes, hg, -⟩ := memWrite_success_iff.1 hw
        exact hg.titled htitled
    obtain ⟨desc, hdesc⟩ := Option.isSome_iff_exists.1 hfound
    have hlookup := hc.lookup_eq hlen pageState.cursorState.address
    rw [hdesc] at hlookup
    obtain ⟨pageState', v', hupdate, -, hhas⟩ := updatePageType_lookup pageState hlookup
    exact ⟨pageState', v', hupdate, hhas⟩
  · obtain ⟨w₁, descriptors, w₂, hinit, hdescs, hmap, hsame⟩ :=
      runVisits_frame (uefiAdapters_sameMaps fw) hrun
    have hw₁ : (memAdapterInit fw w).2 = w₁ := congrArg Prod.snd hinit
    have hcore : coreDescriptors w₁ = descriptors :=
      Option.some.inj (Option.some.inj (congrArg Prod.fst hdescs))
    rw [hw₁, hsame.core, hcore]
    exact ⟨hsame, hmap⟩

theorem mixedMap_fits : mixedMap.length < 2 ^ 32 := by decide

/-- The firmware with ACPI tables, a descriptor that overflows and two pages of
    conventional memory. -/
def copiedFirmware : Firmware :=
  .ofMap (.ofDescriptors mixedMap mixedMap_fits) (some readOnlyProtocol) fun _ => 0

/-- The machine after the initialization. -/
def copiedWorld : UefiWorld := (memAdapterInit copiedFirmware (.boot (fun _ => 0) [])).2

/-- The last page of 256 bytes before the first address that is not in the map. -/
def copiedState : PageMemPageState :=
  ⟨.viewing, ⟨0x2F00, 0x34, 4⟩, ⟨none⟩, 0, false, ⟨0, 0, false, false, false, false⟩, false⟩

/-- The map is copied, with its types; the title of the page has the descriptor of the
    word at `0x2F34`, which can be read, and its block is in the map. -/
theorem map_reaches_pageMem_mixed :
    memAdapterGetMemoryMapDescriptors copiedWorld =
        (some (some (mixedMap.map toCore)), copiedWorld) ∧
      memAdapterGetMemoryTypeAtAddress 0x3FFF copiedWorld = (some (.success, 9, true), copiedWorld) ∧
      memAdapterGetMemoryTypeAtAddress 0x4000 copiedWorld = (some (.success, 0, false), copiedWorld) ∧
      (∃ pageState' v', pageMemControllerUpdatePageType copiedState (uefiAdapters copiedFirmware)
          copiedWorld = (some (.success, pageState'), v') ∧
        pageState'.pageHasMemoryDescriptor = true) ∧
      pageCoreIsRangeValid ⟨some (coreDescriptors copiedWorld)⟩ 0x2F00 256 = true := by
  have hdescs : copiedWorld.memLib.descriptors = mixedMap := by decide +kernel
  obtain ⟨⟨-, -, -, hwhole⟩, -⟩ :=
    And.imp_left (fun h => h copiedWorld (refl_of _ _))
      (map_reaches_pageMem copiedFirmware (.boot (fun _ => 0) []) (by decide +kernel))
  obtain ⟨hmap, hlookup, htitle, hblock⟩ := hwhole (by rw [hdescs]; decide)
  have htables : findDescriptorForRange copiedWorld.memLib 0x3FFF 1 = some ⟨9, 0x3000, 1, 0⟩ := by
    decide +kernel
  have hnone : findDescriptorForRange copiedWorld.memLib 0x4000 1 = none := by decide +kernel
  rw [hdescs] at hmap
  refine ⟨hmap, ?_, ?_, ?_, hblock 0x2F34 256 (by decide +kernel)⟩
  · rw [hlookup, htables]
  · rw [hlookup, hnone]
  · refine htitle copiedState 0x2F34 4 (fun _ => 0) 0 (Or.inr ⟨by decide, ?_⟩)
      (Or.inl (by decide +kernel))
    rw [hdescs]
    decide

/-! ## More than 128 descriptors -/

/-- 129 descriptors of one page of conventional memory each. -/
def longMap : List EfiMemoryDescriptor :=
  (List.range 129).map fun i => ⟨7, BitVec.ofNat 64 ((i + 1) * 4096), 1, 0⟩

theorem longMap_length : longMap.length = 129 := by simp [longMap]

/-- The firmware with that map, and without restrictions. -/
def longFirmware : Firmware :=
  .ofMap (.ofDescriptors longMap (by rw [longMap_length]; decide))
    (some fun _ _ => (efiSuccess, 0)) fun _ => 0

/-- The machine after the initialization. -/
def longWorld : UefiWorld := (memAdapterInit longFirmware (.boot (fun _ => 0) [])).2

set_option maxRecDepth 8000 in
/-- The last descriptor does not reach PageMem: its address can be read, and the
    lookup does not find it. -/
theorem last_descriptor_lost :
    (memAdapterInit longFirmware (.boot (fun _ => 0) [])).1 = some .success ∧
    longWorld.memLib.descriptors.length = 129 ∧
    (coreDescriptors longWorld).length = 128 ∧
    (memRead longFirmware.bootServices longWorld.memLib longWorld.memory 0x81000 1 (some 0)).1 =
      efiSuccess ∧
    findDescriptorForRange longWorld.memLib 0x81000 1 = some ⟨7, 0x81000, 1, 0⟩ ∧
    (memAdapterGetMemoryTypeAtAddress 0x81000 longWorld).1 = some (.success, 0, false) :=
  ⟨by decide +kernel, by decide +kernel, by decide +kernel, by decide +kernel,
    by decide +kernel, by decide +kernel⟩

end UefiNexus
