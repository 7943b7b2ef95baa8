/-
  What a session of the application shows of memory.

  * `DiffersOff V w w'`: two machines that differ in physical memory only, and there
    outside `V`;
  * with the map of an opening, by which every byte it may read is in `V`, every call
    takes such machines to such machines and returns the same (`uefiAdapters_alikeOn`),
    so an opening does (`opening_alike`);
  * the menu and the console do not look at memory, so a session does
    (`session_hides_denied`).
-/
import UefiNexus.Proof.Noninterference
import UefiNexus.Proof.Session

namespace UefiNexus

variable {fw : Firmware} {bs : BootServices} {lib : MemLib} {V : NxU64 → Prop} {α : Type}

/-- The machines differ in bytes of physical memory outside `V`. -/
structure DiffersOff (V : NxU64 → Prop) (w w' : UefiWorld) : Prop where
  eq : w' = { w with memory := w'.memory }
  bytes : ∀ x, V x → w'.memory x = w.memory x

/-- Such machines, with the map of `lib`. -/
structure AlikeOn (bs : BootServices) (lib : MemLib) (V : NxU64 → Prop) (w w' : UefiWorld) :
    Prop extends DiffersOff V w w' where
  map : SameMap bs lib w.memLib

theorem DiffersOff.exists_memory {w w' : UefiWorld} (h : DiffersOff V w w') :
    ∃ memory, w' = { w with memory := memory } := ⟨_, h.eq⟩

/-- A program that neither looks at memory nor changes it. -/
theorem Blind.differsOff {m : Prog UefiWorld α} (hm : Blind m)
    (hsat : ∀ w, (m w).2.memory = w.memory) : Prog.Agree (DiffersOff V) m := by
  intro w w' h
  obtain ⟨memory, rfl⟩ := h.exists_memory
  rw [hm w memory]
  refine ⟨rfl, rfl, fun x hx => ?_⟩
  rw [hsat w]
  exact h.bytes x hx

theorem consoleRequest_blind (op : ConsoleOp) : Blind (consoleRequest op) := fun _ _ => rfl

theorem tuiReadKey_blind : Blind tuiReadKey := by
  intro w memory
  obtain ⟨lib, inits, bridge, size, stride, core, count, old, keys, console⟩ := w
  cases keys with
  | nil => rfl
  | cons key keys => rfl

theorem tuiReadKey_untouched (bs : BootServices) : Prog.Sat (Untouched bs) tuiReadKey := by
  intro w
  unfold tuiReadKey
  rcases w.keys with _ | ⟨key, keys⟩
  · exact refl_of (Untouched bs) w
  · exact ⟨⟨.refl _, rfl⟩, rfl⟩

/-! ## An opening -/

section
variable (V)

theorem Blind.alikeOn {m : Prog UefiWorld α} (hm : Blind m)
    (hsat : Prog.Sat (Untouched fw.bootServices) m) :
    Prog.Agree (AlikeOn fw.bootServices lib V) m := by
  intro w w' h
  obtain ⟨hres, hdiff⟩ := hm.differsOff (fun w => (hsat w).memory) w w' h.toDiffersOff
  exact ⟨hres, hdiff, h.map.trans (hsat w).lib⟩

/-- A read returns the same, as the bytes it may read are in `V`. -/
theorem uefiBridgeMemRead_alikeOn (hV : ∀ x, Readable fw.bootServices lib x → V x) (a : NxU64)
    (width : NxUintn) :
    Prog.Agree (AlikeOn fw.bootServices lib V) (uefiBridgeMemRead fw a width) := by
  intro w w' h
  obtain ⟨memory, rfl⟩ := h.exists_memory
  have hload : ReadAllowed fw.bootServices w.memLib a width →
      ByteMem.load memory a width.toNat = ByteMem.load w.memory a width.toNat := by
    intro ha
    refine ByteMem.load_congr fun i hi => h.bytes _ (hV _ ?_)
    exact ⟨a, width, h.map.readAllowed.1 ha, i, hi, rfl⟩
  have hr := memRead_congr hload 0
  have heq : uefiBridgeMemRead fw a width { w with memory := memory } =
      ((uefiBridgeMemRead fw a width w).1,
        { (uefiBridgeMemRead fw a width w).2 with memory := memory }) := by
    simp only [uefiBridgeMemRead, hr]
    split_ifs
    · rfl
    · rfl
  have hw : Untouched fw.bootServices w (uefiBridgeMemRead fw a width w).2 :=
    uefiBridgeMemRead_untouched a width w
  rw [heq]
  refine ⟨rfl, ⟨rfl, fun x hx => ?_⟩, h.map.trans hw.lib⟩
  rw [hw.memory]
  exact h.bytes x hx

/-- A write stores the same bytes in both memories, or none. -/
theorem uefiBridgeMemWrite_alikeOn (a : NxU64) (width : NxUintn) (value : NxU64) :
    Prog.Agree (AlikeOn fw.bootServices lib V) (uefiBridgeMemWrite fw a width value) := by
  intro w w' h
  obtain ⟨memory, rfl⟩ := h.exists_memory
  obtain ⟨status, lib', hsame, hwrite⟩ := memWrite_eq fw.bootServices w.memLib a width value
  unfold uefiBridgeMemWrite
  by_cases ha : WriteAllowed fw.bootServices w.memLib a width
  · rw [(hwrite memory).1 ha, (hwrite w.memory).1 ha]
    refine ⟨rfl, ⟨rfl, fun x hx => ?_⟩, h.map.trans hsame⟩
    have hbyte : memory x = w.memory x := h.bytes x hx
    show ByteMem.store memory a width.toNat value.toNat x =
      ByteMem.store w.memory a width.toNat value.toNat x
    simp only [ByteMem.store, hbyte]
  · rw [(hwrite memory).2 ha, (hwrite w.memory).2 ha]
    exact ⟨rfl, ⟨rfl, h.bytes⟩, h.map.trans hsame⟩

/-- **The calls after the initialization** return the same, and leave machines that
    differ outside `V` only. -/
theorem uefiAdapters_alikeOn (hV : ∀ x, Readable fw.bootServices lib x → V x) :
    (uefiAdapters fw).Serves (· ≠ .init) (Prog.Agree (AlikeOn fw.bootServices lib V)) := by
  have hmachine : UefiServes fw (Prog.Agree (AlikeOn fw.bootServices lib V)) :=
    { closed := Prog.Agree.closed _
      hang := Prog.Agree.hang _
      console := fun op => (consoleRequest_blind op).alikeOn V fun _ => ⟨⟨.refl _, rfl⟩, rfl⟩
      readKey := tuiReadKey_blind.alikeOn V (tuiReadKey_untouched _)
      query := fun a n =>
        Blind.alikeOn V (fun _ _ => rfl) fun w => .of_lib (query_sameMap _ w.memLib a n)
      getLib := by
        intro α f hf w w' h
        obtain ⟨memory, rfl⟩ := h.exists_memory
        exact hf w.memLib w { w with memory := memory } h
      getKeys := by
        intro α f hf w w' h
        obtain ⟨memory, rfl⟩ := h.exists_memory
        exact hf w.keys.length w { w with memory := memory } h }
  refine hmachine.serves (fun h => absurd rfl h)
    (fun a width _ => uefiBridgeMemRead_alikeOn V hV a width)
    (fun a width value _ => uefiBridgeMemWrite_alikeOn V a width value) ?_ fun a => ?_
  · exact Blind.alikeOn V (fun _ _ => rfl) fun w => refl_of _ w
  · refine Blind.alikeOn V (fun w memory => ?_) fun w => ?_
    · rw [memAdapterGetMemoryTypeAtAddress_eq, memAdapterGetMemoryTypeAtAddress_eq]
      rfl
    · rw [memAdapterGetMemoryTypeAtAddress_eq]
      exact refl_of _ w

end

/-- With a cached map, the bytes that may be read are those the map allows. -/
theorem Readable.mapAllowsRead {m : FirmwareMap} {x : NxU64} (h : Readable bs lib x)
    (hcaches : Caches lib m) (hstride : efiDescriptorSize ≤ m.descriptorSize.toNat) :
    MapAllowsRead (lib.protocol bs) m x := by
  obtain ⟨a, width, ⟨hw, hdvd, desc, attributes, hgranted, htype, hrp⟩, i, hi, rfl⟩ := h
  have hfirst := hgranted.first
  rw [hcaches.descriptors hstride] at hfirst
  have hwrap := hgranted.no_wrap
  have haddr : (a + BitVec.ofNat 64 i).toNat = a.toNat + i := by
    rw [BitVec.toNat_add, BitVec.toNat_ofNat, Nat.mod_eq_of_lt (a := i) (by omega),
      Nat.mod_eq_of_lt (by omega)]
  refine ⟨a, width, desc, attributes, hw, hdvd, ?_, ?_, hfirst, htype, hgranted.answers, hrp⟩
  · omega
  · omega

/-- **An opening** shows nothing of the bytes outside `V`, if `V` has all bytes that
    the firmware's map of the opening allows to be read. -/
theorem opening_alike (fw : Firmware) (pageState : PageMemPageState) (fuel : ℕ)
    {w w' : UefiWorld} (maps : MapsDuring (fw.mapServices w.inits))
    (hV : ∀ x, MapAllowsRead (w.memLib.protocol fw.bootServices) maps.filling x → V x)
    (h : DiffersOff V w w') :
    (pageMemControllerRun (uefiAdapters fw) pageState fuel w).1 =
        (pageMemControllerRun (uefiAdapters fw) pageState fuel w').1 ∧
      DiffersOff V (pageMemControllerRun (uefiAdapters fw) pageState fuel w).2
        (pageMemControllerRun (uefiAdapters fw) pageState fuel w').2 := by
  obtain ⟨memory, rfl⟩ := h.exists_memory
  obtain ⟨status, w₁, hinit, -, -, -⟩ := memAdapterInit_spec fw w
  have hmemory : w₁.memory = w.memory := (memAdapterInit_memory fw).run hinit
  have hinit' : memAdapterInit fw { w with memory := memory } =
      (some status, { w₁ with memory := memory }) := by
    rw [memAdapterInit_blind, hinit]
  have hbytes : ∀ x, V x → memory x = w₁.memory x := by
    intro x hx
    rw [hmemory]
    exact h.bytes x hx
  by_cases hstatus : status = .success
  · subst hstatus
    obtain ⟨hcaches, -, hprotocol⟩ := opening_caches fw maps hinit
    have hreadable : ∀ x, Readable fw.bootServices w₁.memLib x → V x := by
      intro x hx
      refine hV x ?_
      rw [← hprotocol]
      exact hx.mapAllowsRead hcaches maps.stride
    obtain ⟨rest, heq, hrest⟩ :=
      (uefiAdapters_alikeOn V hreadable).pageMemControllerRun_rest pageState fuel
    have hrun : ∀ {v v₁ : UefiWorld}, memAdapterInit fw v = (some .success, v₁) →
        pageMemControllerRun (uefiAdapters fw) pageState fuel v = rest .success v₁ := by
      intro v v₁ hv
      have hv' : (uefiAdapters fw).memory.init v = (some .success, v₁) := hv
      rw [heq, Prog.bind_of_some hv']
    rw [hrun hinit, hrun hinit']
    have halike : AlikeOn fw.bootServices w₁.memLib V w₁ { w₁ with memory := memory } :=
      ⟨⟨rfl, hbytes⟩, .refl _⟩
    obtain ⟨hres, hdiff⟩ := hrest .success _ _ halike
    exact ⟨hres, hdiff.toDiffersOff⟩
  · have herr : nxUiError status = true := by simpa [nxUiError] using hstatus
    rw [pageMemControllerRun_failed fw pageState fuel hinit herr,
      pageMemControllerRun_failed fw pageState fuel hinit' herr]
    exact ⟨rfl, rfl, hbytes⟩

/-! ## A session -/

/-- The states of the application differ in bytes of memory outside `V`; the protocol
    is that of the firmware. -/
structure SessionAlike (fw : AppFirmware) (V : NxU64 → Prop) (w w' : AppWorld) : Prop where
  machine : DiffersOff V w.machine w'.machine
  cursor : w'.cursor = w.cursor
  protocol : w.machine.memLib.protocol fw.bootServices = fw.bootServices.protocol

section
variable {fw : AppFirmware} {maps : DocumentedMaps fw}

/-- The menu does not look at memory. -/
theorem pageMenu_agree {W : Type} (registry : Option (PageRegistry W)) :
    Prog.Agree (DiffersOff V) (pageMenu registry) := by
  refine pageMenu_of_closed (Prog.Agree.closed _) (Prog.Agree.hang _) (fun op => ?_) ?_ ?_ registry
  · exact (consoleRequest_blind op).differsOff fun _ => rfl
  · exact tuiReadKey_blind.differsOff fun w => (tuiReadKey_untouched ⟨0, none⟩ w).memory
  · intro f hf w w' h
    obtain ⟨memory, rfl⟩ := h.exists_memory
    exact hf w.keys.length w { w with memory := memory } h

theorem onMachine_alike {m : Prog UefiWorld α} (hm : Prog.Agree (DiffersOff V) m)
    (hsat : Prog.Sat OnlyConsole m) : Prog.Agree (SessionAlike fw V) (onMachine m) := by
  intro w w' h
  obtain ⟨hres, hdiff⟩ := hm w.machine w'.machine h.machine
  refine ⟨hres, hdiff, h.cursor, ?_⟩
  have hlib : (m w.machine).2.memLib = w.machine.memLib := (hsat w.machine).1
  show (m w.machine).2.memLib.protocol fw.bootServices = fw.bootServices.protocol
  rw [hlib]
  exact h.protocol

/-- PageMem, opened by the application. -/
theorem pageMemLayered_alike (maps : DocumentedMaps fw) (fuel : ℕ)
    (hV : ∀ n x, MapAllowsRead fw.bootServices.protocol (maps.calls n).filling x → V x) :
    Prog.Agree (SessionAlike fw V) (pageMemLayered fw fuel) := by
  intro w w' h
  have hinits : w'.machine.inits = w.machine.inits := by rw [h.machine.eq]
  obtain ⟨hprotocol, -, -⟩ := opening_writes fw.toFirmware (fw.stack w.machine.inits) fuel
    w.machine (maps.calls w.machine.inits)
  obtain ⟨hres, hdiff⟩ := opening_alike fw.toFirmware (fw.stack w.machine.inits) fuel
    (maps.calls w.machine.inits) (by rw [h.protocol]; exact hV _) h.machine
  rw [pageMemLayered_apply, pageMemLayered_apply, hinits]
  exact ⟨congrArg (Option.map fun _ => ()) hres, hdiff, h.cursor, hprotocol.trans h.protocol⟩

theorem SessionAlike.eq {w w' : AppWorld} (h : SessionAlike fw V w w') :
    w' = { w with machine := { w.machine with memory := w'.machine.memory } } := by
  obtain ⟨⟨hmachine, -⟩, hcursor, -⟩ := h
  rcases w' with ⟨v, c⟩
  exact congr (congrArg AppWorld.mk hmachine) hcursor

/-- The mode of the console does not depend on memory. -/
theorem SessionAlike.mode {w w' : AppWorld} (h : SessionAlike fw V w w') :
    modeCursorVisible fw w' = modeCursorVisible fw w ∧ modeAttribute fw w' = modeAttribute fw w := by
  have hconsole : w'.machine.console = w.machine.console := by rw [h.machine.eq]
  unfold modeCursorVisible modeAttribute
  rw [h.cursor, hconsole]
  exact ⟨rfl, rfl⟩

theorem uefiNexusMain_alike (maps : DocumentedMaps fw) (fuel : ℕ)
    (hV : ∀ n x, MapAllowsRead fw.bootServices.protocol (maps.calls n).filling x → V x) :
    Prog.Agree (SessionAlike fw V) (uefiNexusMain fw (getPageRegistry fw fuel) fuel) := by
  have hserves : ApplicationServes fw fuel (Prog.Agree (SessionAlike fw V)) :=
    { closed := Prog.Agree.closed _
      hang := Prog.Agree.hang _
      request := fun op => onMachine_alike ((consoleRequest_blind op).differsOff fun _ => rfl)
        (consoleRequest_onlyConsole op)
      menu := fun registry => onMachine_alike (pageMenu_agree registry) (pageMenu_onlyConsole registry)
      cursor := by
        intro visible w w' h
        refine ⟨rfl, h.machine, ?_, h.protocol⟩
        show w'.cursor ++ [visible] = w.cursor ++ [visible]
        rw [h.cursor]
      page := pageMemLayered_alike maps fuel hV
      getMode := by
        intro α f hf w w' h
        obtain ⟨hvisible, hattr⟩ := h.mode
        show (f (modeCursorVisible fw w) (modeAttribute fw w) w).1 =
            (f (modeCursorVisible fw w') (modeAttribute fw w') w').1 ∧
          SessionAlike fw V (f (modeCursorVisible fw w) (modeAttribute fw w) w).2
            (f (modeCursorVisible fw w') (modeAttribute fw w') w').2
        rw [hvisible, hattr]
        exact hf _ _ w w' h }
  exact hserves.uefiNexusMain fuel

end

/-- **A session shows nothing of denied memory.**  Take two physical memories that
    agree on every byte that the firmware's map allows to be read at some opening.
    Then two sessions on them, from boot and with the same keystrokes, return the
    same or wait at the same place, and make the same requests to the console, take
    the same keystrokes and go through the same initializations: they end in states
    that differ in physical memory only, and still agree on these bytes. -/
theorem session_hides_denied (fw : AppFirmware) (maps : DocumentedMaps fw) (fuel : ℕ)
    (memory memory' : PhysMem) (keys : List EfiInputKey) (cursor : List Bool)
    (hread : ∀ n x, MapAllowsRead fw.bootServices.protocol (maps.calls n).filling x →
      memory' x = memory x) :
    ∃ r w memory₁,
      uefiNexusMain fw (getPageRegistry fw fuel) fuel ⟨.boot memory keys, cursor⟩ = (r, w) ∧
      uefiNexusMain fw (getPageRegistry fw fuel) fuel ⟨.boot memory' keys, cursor⟩ =
        (r, { w with machine := { w.machine with memory := memory₁ } }) ∧
      ∀ n x, MapAllowsRead fw.bootServices.protocol (maps.calls n).filling x →
        memory₁ x = w.machine.memory x := by
  have hstart : SessionAlike fw (fun x => ∃ n, MapAllowsRead fw.bootServices.protocol
      (maps.calls n).filling x) ⟨.boot memory keys, cursor⟩ ⟨.boot memory' keys, cursor⟩ := by
    refine ⟨⟨rfl, ?_⟩, rfl, rfl⟩
    rintro x ⟨n, hx⟩
    exact hread n x hx
  obtain ⟨hres, hend⟩ := uefiNexusMain_alike maps fuel (fun n x hx => ⟨n, hx⟩) _ _ hstart
  rcases hrun : uefiNexusMain fw (getPageRegistry fw fuel) fuel ⟨.boot memory keys, cursor⟩
    with ⟨r, w⟩
  rcases hrun' : uefiNexusMain fw (getPageRegistry fw fuel) fuel ⟨.boot memory' keys, cursor⟩
    with ⟨r', w'⟩
  rw [hrun, hrun'] at hres hend
  exact ⟨r, w, w'.machine.memory, rfl, Prod.ext hres.symm hend.eq,
    fun n x hx => hend.machine.bytes x ⟨n, hx⟩⟩

/-- A memory that differs from the empty one below the map. -/
def lowByte : PhysMem := fun x => if x = 0 then 1 else 0

theorem session_hides_denied_low :
    ∃ r w memory₁,
      uefiNexusMain openApp (getPageRegistry openApp 1) 1 ⟨.boot (fun _ => 0) editKeysOfSession, []⟩ =
        (r, w) ∧
      uefiNexusMain openApp (getPageRegistry openApp 1) 1 ⟨.boot lowByte editKeysOfSession, []⟩ =
        (r, { w with machine := { w.machine with memory := memory₁ } }) := by
  have hread : ∀ n x, MapAllowsRead openApp.bootServices.protocol (openMaps.calls n).filling x →
      lowByte x = 0 := by
    rintro n x ⟨a, width, desc, attributes, -, -, hlow, -, hfirst, -⟩
    have hdesc : desc ∈ onePageCall.filling.descriptors := hfirst.mem
    have hstart : ∀ d ∈ onePageCall.filling.descriptors, 0 < d.physicalStart.toNat := by decide
    have hpos := hstart desc hdesc
    have hle : desc.physicalStart.toNat ≤ a.toNat := hfirst.holds.2.1
    have hne : x.toNat ≠ 0 := by omega
    exact if_neg fun h0 => hne (by rw [h0]; rfl)
  obtain ⟨r, w, memory₁, h, h', -⟩ := session_hides_denied openApp openMaps 1 (fun _ => 0) lowByte
    editKeysOfSession [] hread
  exact ⟨r, w, memory₁, h, h'⟩

end UefiNexus
