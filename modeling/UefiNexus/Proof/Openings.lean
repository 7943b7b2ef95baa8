/-
  The openings of PageMem, and the firmware's map at each of them.

  PageMem can be opened any number of times, and the firmware's memory map may be
  another one at every opening.

  * `MapAllows` is the policy of accesses by the firmware's map itself;
  * an opening has cached this very map (`opening_caches`), or it does not get to
    its first key (`pageMemControllerRun_failed`);
  * so it writes only where the firmware's map allows it (`opening_writes`).
-/
import UefiNexus.Proof.InitMemoryMap
import UefiNexus.Proof.Writes

namespace UefiNexus

/-! ## The firmware's map -/

/-- The descriptors of the firmware's map. -/
def FirmwareMap.descriptors (m : FirmwareMap) : List EfiMemoryDescriptor :=
  (List.range (m.size / m.descriptorSize.toNat)).map fun index =>
    descriptorAt m.bytes (index * m.descriptorSize.toNat)

/-- A descriptor is its 40 bytes. -/
theorem descriptorAt_congr {buffer buffer' : Buffer} {start : ℕ}
    (h : ∀ k < efiDescriptorSize, buffer (start + k) = buffer' (start + k)) :
    descriptorAt buffer start = descriptorAt buffer' start := by
  have hfield : ∀ offset n, offset + n ≤ 40 →
      ByteMem.leValue (fun i => buffer (start + offset + i)) n =
        ByteMem.leValue (fun i => buffer' (start + offset + i)) n := by
    intro offset n hn
    refine ByteMem.leValue_congr fun i hi => ?_
    rw [Nat.add_assoc]
    exact h (offset + i) (Nat.lt_of_lt_of_le (Nat.add_lt_add_left hi offset) hn)
  have htype := hfield 0 4 (by decide)
  rw [Nat.add_zero] at htype
  rw [descriptorAt, descriptorAt, htype, hfield 8 8 (by decide), hfield 24 8 (by decide),
    hfield 32 8 (by decide)]

/-- **A cached map has the firmware's descriptors.** -/
theorem Caches.descriptors {lib : MemLib} {m : FirmwareMap} (h : Caches lib m)
    (hstride : efiDescriptorSize ≤ m.descriptorSize.toNat) :
    lib.descriptors = m.descriptors := by
  obtain ⟨⟨buffer, hbuffer, hbytes⟩, hsize, hdesc⟩ := h
  have hpos : 0 < m.descriptorSize.toNat := Nat.lt_of_lt_of_le (by decide) hstride
  have hne : ¬ m.descriptorSize = 0 := by
    intro h0
    rw [h0] at hpos
    exact absurd hpos (Nat.lt_irrefl 0)
  simp only [MemLib.descriptors, hbuffer, hdesc, if_neg hne, BitVec.toNat_udiv, hsize,
    FirmwareMap.descriptors]
  refine List.map_congr_left fun index hindex => descriptorAt_congr fun k hk => hbytes _ ?_
  have hlt : index + 1 ≤ m.size / m.descriptorSize.toNat := List.mem_range.1 hindex
  have hle : (index + 1) * m.descriptorSize.toNat ≤ m.size :=
    (Nat.mul_le_mul_right _ hlt).trans (Nat.div_mul_le_self _ _)
  rw [Nat.add_mul, Nat.one_mul] at hle
  omega

/-- The byte `x` lies in a range the policy allows to be accessed, by the map `m` and
    the protocol: `types` are the types the range may have, and `denied` is the
    attribute it must not have. -/
def MapAllows (types : List NxU32) (denied : NxU64) (protocol : Option MemoryAttributeProtocol)
    (m : FirmwareMap) (x : NxU64) : Prop :=
  ∃ (a : NxU64) (width : NxUintn) (desc : EfiMemoryDescriptor) (attributes : NxU64),
    WidthOk width ∧ width.toNat ∣ a.toNat ∧ a.toNat ≤ x.toNat ∧
    x.toNat < a.toNat + width.toNat ∧
    Table.First (EfiMemoryDescriptor.Contains (rangeOf a width)) m.descriptors desc ∧
    desc.type ∈ types ∧ Answers protocol a width attributes ∧ attributes &&& denied = 0

/-- The byte may be read. -/
def MapAllowsRead : Option MemoryAttributeProtocol → FirmwareMap → NxU64 → Prop :=
  MapAllows readableTypes efiMemoryRp

/-- The byte may be written. -/
def MapAllowsWrite : Option MemoryAttributeProtocol → FirmwareMap → NxU64 → Prop :=
  MapAllows writableTypes efiMemoryRo

/-! ## An opening -/

/-- `InitMemoryMap` does not change the protocol. -/
theorem initMemoryMap_protocol (bs : BootServices) (services : MapServices) (lib : MemLib) :
    (initMemoryMap bs services lib).2.protocol bs = lib.protocol bs := by
  have hfields : ∀ lib' : MemLib,
      lib'.gMemoryAttributeProtocol = lib.gMemoryAttributeProtocol →
      lib'.gMemoryAttributeProtocolLocated = lib.gMemoryAttributeProtocolLocated →
      lib'.protocol bs = lib.protocol bs := by
    intro lib' hprotocol hlocated
    rw [MemLib.protocol, MemLib.protocol, locateMemoryAttributeProtocol,
      locateMemoryAttributeProtocol, hlocated]
    split_ifs
    · exact hprotocol
    · rfl
    · rfl
  simp only [initMemoryMap]
  split_ifs
  · exact hfields _ rfl rfl
  · exact hfields _ rfl rfl
  · exact hfields _ rfl rfl
  · exact (locate_sameMap bs _).protocol.trans (hfields _ rfl rfl)

/-- What the initialization of the bridge does to the library. -/
theorem uefiBridgeInitMemoryMap_spec (fw : Firmware) (w : UefiWorld) :
    ∃ status w', uefiBridgeInitMemoryMap fw w = (some status, w') ∧
      w'.memLib = (initMemoryMap fw.bootServices (fw.mapServices w.inits) w.memLib).2 ∧
      w'.inits = w.inits + 1 ∧
      (status = .success →
        efiError (initMemoryMap fw.bootServices (fw.mapServices w.inits) w.memLib).1 = false) := by
  simp only [uefiBridgeInitMemoryMap]
  split_ifs with herr hnone
  · refine ⟨_, _, rfl, rfl, rfl, fun h => ?_⟩
    exact efiStatusToUiStatus_eq_success.1 h
  · refine ⟨_, _, rfl, rfl, rfl, fun h => ?_⟩
    cases h
  · exact ⟨_, _, rfl, rfl, rfl, fun _ => by simpa using herr⟩

theorem memAdapterInit_spec (fw : Firmware) (w : UefiWorld) :
    ∃ status w', memAdapterInit fw w = (some status, w') ∧
      w'.memLib = (initMemoryMap fw.bootServices (fw.mapServices w.inits) w.memLib).2 ∧
      w'.inits = w.inits + 1 ∧
      (status = .success →
        efiError (initMemoryMap fw.bootServices (fw.mapServices w.inits) w.memLib).1 = false) := by
  obtain ⟨status, w₁, hbridge, hlib, hinits, hok⟩ := uefiBridgeInitMemoryMap_spec fw w
  rw [memAdapterInit, Prog.bind_of_some hbridge]
  by_cases herr : nxUiError status = true
  · rw [if_pos herr]
    exact ⟨status, w₁, rfl, hlib, hinits, hok⟩
  rw [if_neg herr, Prog.bind_of_some (Prog.get_apply w₁)]
  have hsuccess : status = .success := by simpa [nxUiError] using herr
  split_ifs
  · exact ⟨_, _, rfl, hlib, hinits, fun _ => hok hsuccess⟩
  · exact ⟨_, _, rfl, hlib, hinits, fun _ => hok hsuccess⟩

/-- The number of initializations grows. -/
def InitsLe (w w' : UefiWorld) : Prop := w.inits ≤ w'.inits

instance isPreorder_initsLe : IsPreorder UefiWorld InitsLe where
  refl _ := Nat.le_refl _
  trans _ _ _ := Nat.le_trans

/-- The calls after the initialization of the memory adapter. -/
theorem uefiAdapters_initsLe (fw : Firmware) :
    (uefiAdapters fw).Serves (· ≠ .init) (Prog.Sat InitsLe) := by
  have hmachine : UefiServes fw (Prog.Sat InitsLe) :=
    { closed := Prog.Sat.closed
      hang := Prog.Sat.hang
      console := fun _ _ => Nat.le_refl _
      readKey := fun w => by
        rw [tuiReadKey]
        rcases w.keys with _ | ⟨key, keys⟩
        · exact Nat.le_refl _
        · exact Nat.le_refl _
      query := fun _ _ _ => Nat.le_refl _
      getLib := fun f hf w => hf w.memLib w
      getKeys := fun f hf w => hf w.keys.length w }
  refine hmachine.serves (fun h => absurd rfl h) (fun a width _ w => ?_) (fun a width v _ w => ?_)
    (fun w => Nat.le_refl _) fun a w => ?_
  · simp only [uefiBridgeMemRead]
    split_ifs <;> exact Nat.le_refl _
  · exact Nat.le_refl _
  · rw [memAdapterGetMemoryTypeAtAddress_eq]
    exact Nat.le_refl _

/-- The firmware's maps at the two calls of `GetMemoryMap` of an `InitMemoryMap`, which
    are answered as documented.  The pool may fail, and the map may have grown in
    between. -/
structure MapsDuring (services : MapServices) where
  sizing : FirmwareMap
  filling : FirmwareMap
  documents_sizing : sizing.Documents services.sizing
  documents_filling : filling.Documents services.filling
  stride : efiDescriptorSize ≤ filling.descriptorSize.toNat

/-- An `InitMemoryMap` that succeeds has cached the map. -/
theorem initMemoryMap_caches {services : MapServices} (maps : MapsDuring services)
    (bs : BootServices) (lib : MemLib) (hok : efiError (initMemoryMap bs services lib).1 = false) :
    Caches (initMemoryMap bs services lib).2 maps.filling := by
  -- without a buffer no map is returned
  have hnull : ∀ {m : FirmwareMap} {service : GetMemoryMap}, m.Documents service → ∀ n,
      efiError (service n none).status = true := by
    intro m service hm n
    rcases Nat.lt_or_ge n.toNat m.size with hlt | hge
    · rw [(hm.tooSmall n none hlt).1]
      decide
    · rw [hm.noBuffer n hge]
      decide
  simp only [initMemoryMap] at hok ⊢
  by_cases hsmall : (services.sizing lib.gMemMapSize none).status ≠ efiBufferTooSmall
  · rw [if_pos hsmall, hnull maps.documents_sizing] at hok
    cases hok
  rw [if_neg hsmall] at hok ⊢
  generalize (services.sizing lib.gMemMapSize none).memoryMapSize +
    (services.sizing lib.gMemMapSize none).descriptorSize * 2 = n at hok ⊢
  by_cases hpool : efiError (services.allocatePool n).1 = true
  · rw [if_pos hpool, hpool] at hok
    cases hok
  rw [if_neg hpool] at hok ⊢
  generalize (services.allocatePool n).2 = stored at hok ⊢
  rcases stored with _ | buffer
  · rw [if_pos (hnull maps.documents_filling n), hnull maps.documents_filling] at hok
    cases hok
  rcases Nat.lt_or_ge n.toNat maps.filling.size with hlt | hge
  · -- the map does not fit
    have herr : efiError (services.filling n (some buffer)).status = true := by
      rw [(maps.documents_filling.tooSmall n (some buffer) hlt).1]
      decide
    rw [if_pos herr, herr] at hok
    cases hok
  · obtain ⟨hstatus, hsize, hdesc, hbytes⟩ := maps.documents_filling.fills n buffer hge
    have hne : ¬ efiError (services.filling n (some buffer)).status = true := by
      rw [hstatus]
      decide
    rw [if_neg hne]
    exact locate_caches ⟨⟨_, rfl, hbytes⟩, hsize, hdesc⟩

/-- **The map of an opening** whose initialization succeeds is cached. -/
theorem opening_caches (fw : Firmware) {w w₁ : UefiWorld}
    (maps : MapsDuring (fw.mapServices w.inits))
    (hinit : memAdapterInit fw w = (some .success, w₁)) :
    Caches w₁.memLib maps.filling ∧ w₁.inits = w.inits + 1 ∧
      w₁.memLib.protocol fw.bootServices = w.memLib.protocol fw.bootServices := by
  obtain ⟨status, w₂, hinit', hlib, hinits, hok⟩ := memAdapterInit_spec fw w
  rw [hinit] at hinit'
  simp only [Prod.mk.injEq, Option.some.injEq] at hinit'
  obtain ⟨rfl, rfl⟩ := hinit'
  refine ⟨?_, hinits, by rw [hlib, initMemoryMap_protocol]⟩
  rw [hlib]
  exact initMemoryMap_caches maps fw.bootServices w.memLib (hok rfl)

/-- An opening whose initialization fails ends at once, with a report. -/
theorem pageMemControllerRun_failed (fw : Firmware) (pageState : PageMemPageState) (fuel : ℕ)
    {w w₁ : UefiWorld} {status : NxStatus} (hinit : memAdapterInit fw w = (some status, w₁))
    (herr : nxUiError status = true) :
    pageMemControllerRun (uefiAdapters fw) pageState fuel w =
      (some status, ((uefiAdapters fw).error.reportError
        (wide "Memory adapter initialization failed") status w₁).2) := by
  have hinit' : (uefiAdapters fw).memory.init w = (some status, w₁) := hinit
  rw [pageMemControllerRun, pageMemControllerInit, Prog.seq_assoc, Prog.bind_of_some hinit',
    if_pos herr, Prog.seq_assoc]
  show (if nxUiError status then pure status else _ : Prog UefiWorld NxStatus) _ = _
  rw [if_pos herr]
  rfl

/-- **An opening** changes memory only where the firmware's map of that opening
    allows it. -/
theorem opening_writes (fw : Firmware) (pageState : PageMemPageState) (fuel : ℕ) (w : UefiWorld)
    (maps : MapsDuring (fw.mapServices w.inits)) :
    (pageMemControllerRun (uefiAdapters fw) pageState fuel w).2.memLib.protocol fw.bootServices =
        w.memLib.protocol fw.bootServices ∧
      w.inits < (pageMemControllerRun (uefiAdapters fw) pageState fuel w).2.inits ∧
      ∀ x, (pageMemControllerRun (uefiAdapters fw) pageState fuel w).2.memory x ≠ w.memory x →
        MapAllowsWrite (w.memLib.protocol fw.bootServices) maps.filling x := by
  obtain ⟨status, w₁, hinit, hlib, hinits, -⟩ := memAdapterInit_spec fw w
  have hinit' : (uefiAdapters fw).memory.init w = (some status, w₁) := hinit
  have hmemory : w₁.memory = w.memory := (memAdapterInit_memory fw).run hinit
  have hprotocol : w₁.memLib.protocol fw.bootServices = w.memLib.protocol fw.bootServices := by
    rw [hlib, initMemoryMap_protocol]
  by_cases hstatus : status = .success
  · -- the map of this opening is cached, and all writes are by it
    have hcaches : Caches w₁.memLib maps.filling :=
      (opening_caches fw maps (hstatus ▸ hinit)).1
    obtain ⟨rest, heq, hrest⟩ := (uefiAdapters_writesAllowed fw
      w₁.memLib).pageMemControllerRun_rest pageState fuel
    obtain ⟨rest', heq', hrest'⟩ := (uefiAdapters_initsLe fw).pageMemControllerRun_rest pageState fuel
    have hrun : pageMemControllerRun (uefiAdapters fw) pageState fuel w = rest status w₁ := by
      rw [heq, Prog.bind_of_some hinit']
    have hrun' : pageMemControllerRun (uefiAdapters fw) pageState fuel w = rest' status w₁ := by
      rw [heq', Prog.bind_of_some hinit']
    have hle := hrest' status w₁
    rw [← hrun'] at hle
    obtain ⟨hsame, hwrites⟩ := hrest status w₁ (.refl _)
    rw [← hrun] at hsame hwrites
    refine ⟨hsame.protocol.trans hprotocol, Nat.lt_of_lt_of_le ?_ hle, fun x hx => ?_⟩
    · rw [hinits]
      exact Nat.lt_succ_self _
    · obtain ⟨a, width, ⟨hw, hdvd, desc, attributes, hgranted, htype, hro⟩, hlow, hhigh⟩ :=
        hwrites x (hmemory ▸ hx)
      have hfirst := hgranted.first
      have hanswers := hgranted.answers
      rw [hcaches.descriptors maps.stride] at hfirst
      rw [hprotocol] at hanswers
      exact ⟨a, width, desc, attributes, hw, hdvd, hlow, hhigh, hfirst, htype, hanswers, hro⟩
  · -- the opening ends at once
    have herr : nxUiError status = true := by simpa [nxUiError] using hstatus
    rw [pageMemControllerRun_failed fw pageState fuel hinit herr]
    refine ⟨hprotocol, ?_, fun x hx => absurd (congrFun hmemory x) hx⟩
    show w.inits < w₁.inits
    omega

end UefiNexus
