/-
  An opening of PageMem is a viewer.

  * `libAt fw n` is NexusMemLib before opening number `n` of a session, which depends
    on the firmware alone: `InitMemoryMap` reads no more of the library than the size
    it keeps, and the calls in between keep it (`KeepsLib`);
  * so the firmware determines what each opening finds (`openingAt`), and an opening is
    then a viewer from its first key to the ESC that leaves it (`opening_is_viewer`),
    or is over at once (`opening_fails`).
-/
import UefiNexus.Abstract.Tool
import UefiNexus.Proof.Session
import UefiNexus.Proof.Viewer

namespace UefiNexus

open Refine (ending)

/-! ## The library between two openings -/

/-- Nothing that an initialization reads has changed. -/
structure KeepsLib (bs : BootServices) (w w' : UefiWorld) : Prop where
  map : SameMap bs w.memLib w'.memLib
  size : w'.memLib.gMemMapSize = w.memLib.gMemMapSize
  inits : w'.inits = w.inits

instance isPreorder_keepsLib (bs : BootServices) : IsPreorder UefiWorld (KeepsLib bs) where
  refl w := ⟨.refl w.memLib, rfl, rfl⟩
  trans _ _ _ h h' := ⟨h.map.trans h'.map, h'.size.trans h.size, h'.inits.trans h.inits⟩

section
variable {bs : BootServices} {w : UefiWorld}

/-- After a query. -/
theorem KeepsLib.of_query (bs : BootServices) (w : UefiWorld) (a n : NxU64) :
    KeepsLib bs w { w with memLib := (queryMemoryAccess bs w.memLib a n).2.2 } :=
  ⟨query_sameMap bs w.memLib a n, (query_keeps bs w.memLib a n).2, rfl⟩

/-- An access does no more to the library than a query. -/
theorem memRead_lib (bs : BootServices) (lib : MemLib) (memory : PhysMem) (a : NxU64)
    (width : NxUintn) (value : NxU64) :
    (memRead bs lib memory a width (some value)).2.2 = lib ∨
      (memRead bs lib memory a width (some value)).2.2 = (queryMemoryAccess bs lib a width).2.2 := by
  simp only [memRead]
  by_cases hs : isSupportedWidth width = true
  · rw [if_neg (not_not_intro hs)]
    have hlib : (isRangeValid bs lib a width).2 = (queryMemoryAccess bs lib a width).2.2 := rfl
    rw [hlib]
    refine Or.inr ?_
    split_ifs <;> rfl
  · rw [if_pos hs]
    exact Or.inl rfl

theorem memWrite_lib (bs : BootServices) (lib : MemLib) (memory : PhysMem) (a : NxU64)
    (width : NxUintn) (value : NxU64) :
    (memWrite bs lib memory a width value).2.2 = lib ∨
      (memWrite bs lib memory a width value).2.2 = (queryMemoryAccess bs lib a width).2.2 := by
  simp only [memWrite]
  by_cases hs : isSupportedWidth width = true
  · rw [if_neg (not_not_intro hs)]
    have hlib : (isRangeWritable bs lib a width).2 = (queryMemoryAccess bs lib a width).2.2 := rfl
    rw [hlib]
    refine Or.inr ?_
    split_ifs <;> rfl
  · rw [if_pos hs]
    exact Or.inl rfl

theorem uefiBridgeMemRead_keepsLib (fw : Firmware) (a : NxU64) (width : NxUintn) :
    Prog.Sat (KeepsLib fw.bootServices) (uefiBridgeMemRead fw a width) := by
  intro w
  have hlib : KeepsLib fw.bootServices w
      { w with memLib := (memRead fw.bootServices w.memLib w.memory a width (some 0)).2.2 } := by
    rcases memRead_lib fw.bootServices w.memLib w.memory a width 0 with h | h
    · rw [h]
      exact refl_of (KeepsLib fw.bootServices) w
    · rw [h]
      exact .of_query fw.bootServices w a width
  simp only [uefiBridgeMemRead]
  split_ifs <;> exact hlib

theorem uefiBridgeMemWrite_keepsLib (fw : Firmware) (a : NxU64) (width : NxUintn) (value : NxU64) :
    Prog.Sat (KeepsLib fw.bootServices) (uefiBridgeMemWrite fw a width value) := by
  intro w
  have hlib : KeepsLib fw.bootServices w
      { w with memLib := (memWrite fw.bootServices w.memLib w.memory a width value).2.2 } := by
    rcases memWrite_lib fw.bootServices w.memLib w.memory a width value with h | h
    · rw [h]
      exact refl_of (KeepsLib fw.bootServices) w
    · rw [h]
      exact .of_query fw.bootServices w a width
  exact ⟨hlib.map, hlib.size, hlib.inits⟩

/-- The calls after the initialization of the memory adapter. -/
theorem uefiAdapters_keepsLib (fw : Firmware) :
    (uefiAdapters fw).Serves (· ≠ .init) (Prog.Sat (KeepsLib fw.bootServices)) := by
  have hmachine : UefiServes fw (Prog.Sat (KeepsLib fw.bootServices)) :=
    { closed := Prog.Sat.closed
      hang := Prog.Sat.hang
      console := fun _ _ => ⟨.refl _, rfl, rfl⟩
      readKey := fun w => by
        rw [tuiReadKey]
        rcases w.keys with _ | ⟨key, keys⟩
        · exact refl_of (KeepsLib fw.bootServices) w
        · exact ⟨.refl _, rfl, rfl⟩
      query := fun a n w => .of_query fw.bootServices w a n
      getLib := fun f hf w => hf w.memLib w
      getKeys := fun f hf w => hf w.keys.length w }
  refine hmachine.serves (fun h => absurd rfl h)
    (fun a width _ => uefiBridgeMemRead_keepsLib fw a width)
    (fun a width value _ => uefiBridgeMemWrite_keepsLib fw a width value)
    (fun w => refl_of (KeepsLib fw.bootServices) w) fun a w => ?_
  rw [memAdapterGetMemoryTypeAtAddress_eq]
  exact refl_of (KeepsLib fw.bootServices) w

end

/-- `InitMemoryMap` reads the size of the library, and no more of it. -/
theorem initMemoryMap_congr (bs : BootServices) (services : MapServices) {lib lib' : MemLib}
    (h : SameMap bs lib lib') (hsize : lib'.gMemMapSize = lib.gMemMapSize) :
    (initMemoryMap bs services lib').1 = (initMemoryMap bs services lib).1 ∧
      SameMap bs (initMemoryMap bs services lib).2 (initMemoryMap bs services lib').2 ∧
      (initMemoryMap bs services lib').2.gMemMapSize =
        (initMemoryMap bs services lib).2.gMemMapSize := by
  have hprotocol : (initMemoryMap bs services lib').2.protocol bs =
      (initMemoryMap bs services lib).2.protocol bs := by
    rw [initMemoryMap_protocol, initMemoryMap_protocol]
    exact h.protocol
  have hlocate : ∀ lib : MemLib,
      (locateMemoryAttributeProtocol bs lib).gMemMapSize = lib.gMemMapSize := by
    intro lib
    unfold locateMemoryAttributeProtocol
    split_ifs <;> rfl
  suffices hrest : (initMemoryMap bs services lib').1 = (initMemoryMap bs services lib).1 ∧
      (initMemoryMap bs services lib').2.descriptors =
        (initMemoryMap bs services lib).2.descriptors ∧
      (initMemoryMap bs services lib').2.gMemMapSize =
        (initMemoryMap bs services lib).2.gMemMapSize from
    ⟨hrest.1, ⟨hrest.2.1, hprotocol⟩, hrest.2.2⟩
  simp only [initMemoryMap, hsize]
  split_ifs
  · exact ⟨rfl, rfl, rfl⟩
  · exact ⟨rfl, rfl, rfl⟩
  · exact ⟨rfl, rfl, rfl⟩
  · refine ⟨rfl, ?_, ?_⟩
    · rw [locate_descriptors, locate_descriptors]
      rfl
    · rw [hlocate, hlocate]

/-! ## What the openings find -/

/-- NexusMemLib before opening number `n` of a session. -/
def libAt (fw : Firmware) : ℕ → MemLib
  | 0 => .initial
  | n + 1 => (initMemoryMap fw.bootServices (fw.mapServices n) (libAt fw n)).2

/-- The opening number `n` gets a memory map. -/
def Opens (fw : Firmware) (n : ℕ) : Prop :=
  efiError (initMemoryMap fw.bootServices (fw.mapServices n) (libAt fw n)).1 = false ∧
    (libAt fw (n + 1)).descriptors ≠ []

/-- The address map of PageMem at that opening. -/
def mapAt (fw : Firmware) (n : ℕ) : PageMemAddressMap :=
  ⟨some (((libAt fw (n + 1)).descriptors.take maxDescriptors).map toCore)⟩

open Classical in
/-- What the tool finds at opening number `n`. -/
noncomputable def openingAt (fw : Firmware) (n : ℕ) : Option Opening :=
  if Opens fw n then
    some ⟨viewed fw (mapAt fw n) (libAt fw (n + 1)),
      (pageCoreGetFirstValidAddress (mapAt fw n)).toNat / 256 * 256⟩
  else none

/-- The machine is before opening number `n`. -/
structure BeforeOpening (fw : Firmware) (n : ℕ) (w : UefiWorld) : Prop where
  inits : w.inits = n
  map : SameMap fw.bootServices (libAt fw n) w.memLib
  size : w.memLib.gMemMapSize = (libAt fw n).gMemMapSize

section
variable {fw : Firmware} {n : ℕ} {w w' : UefiWorld}

theorem BeforeOpening.kept (h : BeforeOpening fw n w) (hkept : KeepsLib fw.bootServices w w') :
    BeforeOpening fw n w' :=
  ⟨hkept.inits.trans h.inits, h.map.trans hkept.map, hkept.size.trans h.size⟩

/-- The initialization of an opening. -/
theorem BeforeOpening.init (h : BeforeOpening fw n w) {status : NxStatus}
    (hrun : memAdapterInit fw w = (some status, w')) : BeforeOpening fw (n + 1) w' := by
  obtain ⟨hinits, hmap, hsize⟩ := h
  obtain ⟨-, hmap', hsize'⟩ := initMemoryMap_congr fw.bootServices (fw.mapServices n) hmap hsize
  obtain ⟨_, _, hrun', hlib, hinits', -⟩ := memAdapterInit_spec fw w
  rw [hrun] at hrun'
  cases hrun'
  rw [hinits] at hlib hinits'
  rw [← hlib] at hmap' hsize'
  exact ⟨hinits', hmap', hsize'⟩

/-- **When an opening gets a map**: when `InitMemoryMap` returns no error and there
    is a descriptor. -/
theorem memAdapterInit_succeeds_iff (fw : Firmware) (w : UefiWorld) :
    (memAdapterInit fw w).1 = some .success ↔
      efiError (initMemoryMap fw.bootServices (fw.mapServices w.inits) w.memLib).1 = false ∧
        (initMemoryMap fw.bootServices (fw.mapServices w.inits) w.memLib).2.descriptors ≠ [] := by
  rcases hb : uefiBridgeInitMemoryMap fw w with ⟨r, w₁⟩
  have hbridge := hb
  simp only [uefiBridgeInitMemoryMap] at hb
  generalize initMemoryMap fw.bootServices (fw.mapServices w.inits) w.memLib = reply at hb ⊢
  obtain ⟨status, lib⟩ := reply
  dsimp only at hb ⊢
  unfold memAdapterInit
  by_cases herr : efiError status = true
  · rw [if_pos herr] at hb
    cases hb
    have hfails : nxUiError (efiStatusToUiStatus status) = true := by
      simpa [nxUiError, efiStatusToUiStatus_eq_success] using herr
    rw [Prog.bind_of_some hbridge, if_pos hfails]
    refine iff_of_false (fun h => ?_) fun h => ?_
    · rw [Option.some.inj h] at hfails
      cases hfails
    · rw [herr] at h
      cases h.1
  rw [if_neg herr] at hb
  by_cases hnull : lib.gMemMap.isNone = true ∨ lib.gDescSize = 0
  · rw [if_pos hnull] at hb
    cases hb
    rw [Prog.bind_of_some hbridge]
    exact iff_of_false (by simp [nxUiError]) fun h => h.2 (descriptors_eq_nil hnull)
  rw [if_neg hnull] at hb
  cases hb
  rw [Prog.bind_of_some hbridge, if_neg (by simp [nxUiError]), Prog.bind_of_some (Prog.get_apply _)]
  dsimp only
  -- the size of the bridge's map is zero exactly if there is no descriptor
  have hzero : BitVec.ofNat 64 ((lib.descriptors.take maxDescriptors).map toBridgeDescriptor).length *
      bridgeDescriptorSize = 0 ↔ lib.descriptors = [] := by
    have hlen : ((lib.descriptors.take maxDescriptors).map toBridgeDescriptor).length =
        min 128 lib.descriptors.length := by
      rw [List.length_map, List.length_take]
      rfl
    have h32 : bridgeDescriptorSize.toNat = 32 := rfl
    rw [← BitVec.toNat_inj, BitVec.toNat_mul, BitVec.toNat_ofNat, h32, hlen,
      ← List.length_eq_zero_iff]
    show _ = 0 ↔ _
    omega
  have h32 : bridgeDescriptorSize ≠ 0 := by decide
  by_cases hnil : lib.descriptors = []
  · rw [if_pos (Or.inl (hzero.2 hnil))]
    exact iff_of_false (by simp [Prog.modify, bind, pure]) fun h => h.2 hnil
  · rw [if_neg fun h => h.elim (fun h => hnil (hzero.1 h)) h32]
    exact iff_of_true rfl ⟨Bool.eq_false_of_not_eq_true herr, hnil⟩

theorem BeforeOpening.succeeds_iff (h : BeforeOpening fw n w) :
    (memAdapterInit fw w).1 = some .success ↔ Opens fw n := by
  obtain ⟨hstatus, hmap, -⟩ := initMemoryMap_congr fw.bootServices (fw.mapServices n) h.map h.size
  rw [memAdapterInit_succeeds_iff, h.inits, hstatus, hmap.descriptors]
  rfl

/-- The machine after an opening, whether it has returned or not. -/
theorem BeforeOpening.run (h : BeforeOpening fw n w) {s : PageMemPageState} {fuel : ℕ}
    {status : NxStatus}
    (hrun : pageMemControllerRun (uefiAdapters fw) s fuel w = (some status, w')) :
    BeforeOpening fw (n + 1) w' := by
  obtain ⟨rest, heq, hrest⟩ := (uefiAdapters_keepsLib fw).pageMemControllerRun_rest s fuel
  rw [heq] at hrun
  obtain ⟨status₁, w₁, hinit, hrun⟩ := Prog.bind_eq_some.1 hrun
  exact (h.init hinit).kept ((hrest status₁).run hrun)

/-- The state in which an opening that gets a map comes to its first key. -/
theorem BeforeOpening.opens (h : BeforeOpening fw n w) (hopens : Opens fw n)
    (s : PageMemPageState) :
    ∃ s₁ w₁, pageMemControllerInit s (uefiAdapters fw) w = (some (.success, s₁), w₁) ∧
      Viewing fw (mapAt fw n) (libAt fw (n + 1)) s₁ w₁ ∧
      view s₁ w₁ =
        ⟨(pageCoreGetFirstValidAddress (mapAt fw n)).toNat / 256 * 256, 0, 1, w.memory, w.keys⟩ := by
  have hsuccess := h.succeeds_iff.2 hopens
  rcases hmem : memAdapterInit fw w with ⟨r, wᵢ⟩
  rw [hmem] at hsuccess
  dsimp only at hsuccess
  rw [hsuccess] at hmem
  have hbefore := h.init hmem
  -- the descriptors the controller gets are those of the library
  have hcopied := memAdapterInit_copied (congrArg Prod.fst hmem)
  rw [hmem, Copied] at hcopied
  dsimp only at hcopied
  rw [hbefore.map.descriptors] at hcopied
  have hdescs : (uefiAdapters fw).memory.getMemoryMapDescriptors wᵢ =
      (some (mapAt fw n).descriptors, wᵢ) := by
    unfold mapAt
    rw [← hcopied]
    rfl
  rcases hlist : ((libAt fw (n + 1)).descriptors.take maxDescriptors).map toCore with _ | ⟨d, ds⟩
  · rw [List.map_eq_nil_iff, List.take_eq_nil_iff] at hlist
    exact absurd (hlist.resolve_left (by decide)) hopens.2
  have hmap : mapAt fw n = ⟨some (d :: ds)⟩ := by
    unfold mapAt
    rw [hlist]
  rw [hmap] at hdescs
  obtain ⟨s₁, w₁, htype, -⟩ := updatePageType_uefi fw
    (pageCoreInitPageState { s with addressMap := ⟨some (d :: ds)⟩ }
      (pageCoreGetFirstValidAddress ⟨some (d :: ds)⟩)).2 wᵢ
  have hmem' : (uefiAdapters fw).memory.init w = (some .success, wᵢ) := hmem
  have hinit : pageMemControllerInit s (uefiAdapters fw) w = (some (.success, s₁), w₁) := by
    unfold pageMemControllerInit
    rw [Prog.bind_of_some hmem', if_neg (by decide), Prog.bind_of_some hdescs]
    exact htype
  have hkept : KeepsLib fw.bootServices wᵢ w₁ :=
    (((uefiAdapters_keepsLib fw).mono quiet_ne_init).pageMemControllerUpdatePageType _).run htype
  have haddress : s₁.addressMap = mapAt fw n := (updatePageType_sameView htype).map.trans hmap.symm
  obtain ⟨hdrawable, hmode⟩ := pageMemControllerInit_drawable hinit rfl
  refine ⟨s₁, w₁, hinit, ⟨hdrawable, hmode, haddress, (hbefore.kept hkept).map⟩, ?_⟩
  rw [← haddress]
  exact first_view hinit rfl

/-! ## An opening -/

/-- The loop returns where the viewer is left. -/
theorem serveKey_quits (map : PageMemAddressMap) (lib : MemLib) :
    Refine.Quits (serveKey (uefiAdapters fw)) (Viewing fw map lib) view Viewer.left
      (fun _ w => (w.memory, w.keys)) := by
  refine ⟨fun s w status w' _ hserve => ?_, fun s w r _ hleft => ?_⟩
  · obtain ⟨-, key', hread, hesc⟩ := serveKey_eq_inr.1 hserve
    obtain ⟨key, keys, hkeys, rfl, rfl⟩ := readKey_uefi_inv hread
    exact Viewer.left_eq_some.2 ⟨key, (scan_eq 0x17 (by omega)).1 hesc, hkeys, rfl⟩
  · obtain ⟨key, hesc, hkeys, hmemory⟩ := Viewer.left_eq_some.1 hleft
    have hread : (uefiAdapters fw).tui.readKey w = (some (uiKey key), { w with keys := r.2 }) :=
      readKey_uefi hkeys
    have hserve : serveKey (uefiAdapters fw) s w = (some (.inr .success), { w with keys := r.2 }) :=
      serveKey_eq_inr.2 ⟨rfl, _, hread, (scan_eq 0x17 (by omega)).2 hesc⟩
    exact ⟨.success, _, hserve, Prod.ext hmemory rfl⟩

/-- **An opening is a viewer**, from its first key to the ESC that leaves it. -/
theorem opening_is_viewer (hpos : Positional fw.strHexToUint64) (hempty : fw.strHexToUint64 [] = 0)
    (h : BeforeOpening fw n w) (hopens : Opens fw n) (hal : MapAligned (mapAt fw n))
    (s : PageMemPageState) {fuel : ℕ} (hfuel : w.keys.length < fuel) :
    (Prog.done (pageMemControllerRun (uefiAdapters fw) s fuel) w).map
        (fun p => (p.2.memory, p.2.keys)) =
      ending (Viewer.step (viewed fw (mapAt fw n) (libAt fw (n + 1)))) Viewer.left
        ⟨(pageCoreGetFirstValidAddress (mapAt fw n)).toNat / 256 * 256, 0, 1, w.memory, w.keys⟩ := by
  obtain ⟨s₁, w₁, hinit, hviewing, hview⟩ := h.opens hopens s
  have hrun : pageMemControllerRun (uefiAdapters fw) s fuel w =
      Prog.loop (redrawIfNeeded (uefiAdapters fw)) (serveKey (uefiAdapters fw)) fuel s₁ w₁ := by
    unfold pageMemControllerRun
    rw [Prog.bind_of_some hinit]
    rfl
  have hdone : Prog.done (pageMemControllerRun (uefiAdapters fw) s fuel) w =
      Prog.done (Prog.loop (redrawIfNeeded (uefiAdapters fw)) (serveKey (uefiAdapters fw)) fuel s₁)
        w₁ := by
    unfold Prog.done
    rw [hrun]
  rw [hdone, ← hview]
  refine (controller_refines hpos hempty hal hopens.2).ending (serveKey_quits _ _)
    (Viewer.left_final _) hviewing fun k v hk => ?_
  have hle := Refine.run_measure (μ := fun v => v.keys.length) (fun _ _ => Viewer.step_length)
    k _ v hk
  rw [hview] at hle
  exact Nat.lt_of_le_of_lt ((Nat.le_add_left k _).trans hle) hfuel

/-- **An opening without a map** is over at once. -/
theorem opening_fails (h : BeforeOpening fw n w) (hopens : ¬ Opens fw n) (s : PageMemPageState)
    (fuel : ℕ) :
    ∃ status w', pageMemControllerRun (uefiAdapters fw) s fuel w = (some status, w') ∧
      w'.memory = w.memory ∧ w'.keys = w.keys := by
  obtain ⟨status, w₁, hinit, hkeys⟩ : ∃ status w₁, memAdapterInit fw w = (some status, w₁) ∧
      w₁.keys = w.keys := still_memoryInit w
  have hmemory : SameMemory w w₁ := (memAdapterInit_memory fw).run hinit
  have herr : nxUiError status = true := by
    by_contra hok
    refine hopens (h.succeeds_iff.1 ?_)
    rw [hinit]
    have hsuccess : status = .success := by simpa [nxUiError] using hok
    rw [hsuccess]
  exact ⟨_, _, pageMemControllerRun_failed fw s fuel hinit herr, hmemory, hkeys⟩

/-- **An opening is the tool's page.** -/
theorem opening_is_page (hpos : Positional fw.strHexToUint64) (hempty : fw.strHexToUint64 [] = 0)
    (h : BeforeOpening fw n w) (hal : Opens fw n → MapAligned (mapAt fw n))
    (s : PageMemPageState) {fuel : ℕ} (hfuel : w.keys.length < fuel) :
    (Prog.done (pageMemControllerRun (uefiAdapters fw) s fuel) w).map
        (fun p => (⟨p.2.inits, p.2.memory, p.2.keys⟩ : Tool)) =
      Tool.openPage (openingAt fw) ⟨n, w.memory, w.keys⟩ := by
  have hinits : (Prog.done (pageMemControllerRun (uefiAdapters fw) s fuel) w).map
        (fun p => (⟨p.2.inits, p.2.memory, p.2.keys⟩ : Tool)) =
      (Prog.done (pageMemControllerRun (uefiAdapters fw) s fuel) w).map
        (fun p => (⟨n + 1, p.2.memory, p.2.keys⟩ : Tool)) := by
    refine Option.map_congr fun p hp => ?_
    rw [(h.run (Prog.done_eq_some.1 hp)).inits]
  rw [hinits]
  unfold Tool.openPage
  by_cases hopens : Opens fw n
  · have hfound : openingAt fw n = some ⟨viewed fw (mapAt fw n) (libAt fw (n + 1)),
        (pageCoreGetFirstValidAddress (mapAt fw n)).toNat / 256 * 256⟩ := if_pos hopens
    dsimp only
    rw [hfound]
    dsimp only
    rw [← opening_is_viewer hpos hempty h hopens (hal hopens) s hfuel, Option.map_map]
    rfl
  · have hfound : openingAt fw n = none := if_neg hopens
    obtain ⟨status, w', hrun, hmemory, hkeys⟩ := opening_fails h hopens s fuel
    dsimp only
    rw [hfound, Prog.done_eq_some.2 hrun, Option.map_some, hmemory, hkeys]

end

end UefiNexus
