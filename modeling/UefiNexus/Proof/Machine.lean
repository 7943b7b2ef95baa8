/-
  What the UEFI adapters do to the machine.

  * `UefiServes fw Φ`: the operations of the machine that leave memory alone —
    requests to the console, keystrokes, queries of the access — have the closed
    property `Φ`; then so have the adapter operations made of them;
  * `SameMaps`: the memory map, in NexusMemLib and in the memory adapter, is the
    same; `Untouched`: and so is physical memory.
-/
import UefiNexus.Proof.AccessPolicy
import UefiNexus.Proof.Calls
import UefiNexus.Uefi.Adapters

namespace UefiNexus

variable {fw : Firmware} {Φ : ∀ {α : Type}, Prog UefiWorld α → Prop}

/-- The operations that leave memory alone have the property `Φ`. -/
structure UefiServes (fw : Firmware) (Φ : ∀ {α : Type}, Prog UefiWorld α → Prop) : Prop where
  closed : Prog.Closed Φ
  hang : ∀ {α : Type}, Φ (Prog.hang : Prog UefiWorld α)
  console : ∀ op, Φ (consoleRequest op)
  readKey : Φ tuiReadKey
  query : ∀ a n, Φ (uefiBridgeQueryMemoryAccess fw a n)
  /-- Programs may depend on the memory library and on the number of keystrokes. -/
  getLib : ∀ {α : Type} (f : MemLib → Prog UefiWorld α), (∀ lib, Φ (f lib)) →
    Φ (Prog.get >>= fun w => f w.memLib)
  getKeys : ∀ {α : Type} (f : ℕ → Prog UefiWorld α), (∀ n, Φ (f n)) →
    Φ fun w => f w.keys.length w

/-- `DumpMemoryRanges` with the memory library it finds. -/
def dumpRangesOf (fw : Firmware) (showAllTypes : Bool) (lib : MemLib) : Prog UefiWorld Unit :=
  if lib.gMemMap.isNone ∨ lib.gDescSize = 0 then pure ()
  else do
    tuiClearScreen
    dumpHeading
    match ← dumpRangesFrom fw showAllTypes lib.descriptors 0 with
    | none => pure ()
    | some printed =>
      if printed = 0 then print (wide "(none)\n") []
      print (wide "\nPress any key to return...") []
      tuiWaitForKeyPress

namespace UefiServes

section
variable (h : UefiServes fw Φ)
include h

theorem print (format : List NxUiChar) (args : List PrintArg) : Φ (print format args) :=
  h.console _

theorem editHexBuffer (maxDigits : ℕ) (key : EfiInputKey) (buffer : List NxUiChar) (index : ℕ) :
    Φ (editHexBuffer maxDigits key buffer index) := by
  have hback : ∀ s : List NxUiChar × ℕ,
      Φ (if key.unicodeChar = charBackspace ∧ s.2 > 0 then do
          UefiNexus.print [charBackspace, L ' ', charBackspace] []
          pure (s.1, s.2 - 1)
        else pure s) := by
    intro s
    split_ifs
    · exact h.closed.seq (h.print _ _) fun _ => h.closed.ret _
    · exact h.closed.ret _
  rw [UefiNexus.editHexBuffer]
  dsimp only
  split_ifs
  · exact h.closed.seq (h.print _ _) fun _ => h.closed.seq (h.closed.ret _) hback
  · exact h.closed.seq (h.closed.ret _) hback

theorem tuiReadHexLoop (strHexToUint64 : List NxUiChar → NxU64) (maxDigits : ℕ) :
    ∀ n buffer index, Φ (tuiReadHexLoop strHexToUint64 maxDigits n buffer index)
  | 0, _, _ => h.hang
  | n + 1, buffer, index => by
    refine h.closed.seq h.readKey fun key => ?_
    split_ifs
    · exact h.closed.ret _
    · exact h.closed.ret _
    · exact h.closed.seq (h.editHexBuffer maxDigits key buffer index) fun _ =>
        tuiReadHexLoop strHexToUint64 maxDigits n _ _

theorem tuiReadHex (maxDigits : NxUintn) : Φ (tuiReadHex fw maxDigits) :=
  h.getKeys (fun n => UefiNexus.tuiReadHexLoop fw.strHexToUint64
    (if maxDigits.toNat ≥ hexBufferSize then hexBufferSize - 1 else maxDigits.toNat) n
    (List.replicate hexBufferSize (BitVec.allOnes 16)) 0) fun _ => h.tuiReadHexLoop _ _ _ _ _

theorem dumpHeading : Φ dumpHeading := h.closed.seq (h.print _ _) fun _ => h.print _ _

theorem dumpLine (desc : EfiMemoryDescriptor) : Φ (dumpLine fw desc) := by
  have haccess : Φ (rangeAccess fw desc) := by
    rw [rangeAccess]
    split_ifs
    · exact h.query _ _
    · exact h.closed.ret _
  exact h.closed.seq haccess fun _ => h.print _ _

theorem dumpRangesFrom (showAllTypes : Bool) :
    ∀ descs printed, Φ (dumpRangesFrom fw showAllTypes descs printed)
  | [], _ => h.closed.ret _
  | desc :: descs, printed => by
    rw [UefiNexus.dumpRangesFrom]
    split_ifs
    · exact dumpRangesFrom showAllTypes descs printed
    refine h.closed.seq (h.dumpLine desc) fun _ => ?_
    dsimp only
    split_ifs
    · refine h.closed.seq (h.print _ _) fun _ => h.closed.seq h.readKey fun key => ?_
      split_ifs
      · exact h.closed.ret _
      · exact h.closed.seq (h.console _) fun _ => h.closed.seq h.dumpHeading fun _ =>
          dumpRangesFrom showAllTypes descs _
    · exact dumpRangesFrom showAllTypes descs _

theorem dumpMemoryRanges (showAllTypes : Bool) : Φ (dumpMemoryRanges fw showAllTypes) := by
  refine h.getLib (dumpRangesOf fw showAllTypes) fun lib => ?_
  have hend : Φ (do
      UefiNexus.print (wide "\nPress any key to return...") []
      tuiWaitForKeyPress) :=
    h.closed.seq (h.print _ _) fun _ => h.closed.seq h.readKey fun _ => h.closed.ret _
  rw [dumpRangesOf]
  split_ifs
  · exact h.closed.ret _
  refine h.closed.seq (h.console _) fun _ => h.closed.seq h.dumpHeading fun _ =>
    h.closed.seq (h.dumpRangesFrom _ _ _) fun r => ?_
  cases r with
  | none => exact h.closed.ret _
  | some printed =>
    dsimp only
    split_ifs
    · exact h.closed.seq (h.print _ _) fun _ => hend
    · exact hend

/-- The calls of the adapters. -/
theorem serves {S : AdapterCall → Prop} (hinit : S .init → Φ (memAdapterInit fw))
    (hread : ∀ a w, S (.memRead a w) → Φ (uefiBridgeMemRead fw a w))
    (hwrite : ∀ a w v, S (.memWrite a w v) → Φ (uefiBridgeMemWrite fw a w v))
    (hdescs : Φ memAdapterGetMemoryMapDescriptors)
    (htype : ∀ a, Φ (memAdapterGetMemoryTypeAtAddress a)) : (uefiAdapters fw).Serves S Φ where
  closed := h.closed
  hang := h.hang
  init := hinit
  memRead := hread
  memWrite := hwrite
  getMemoryMapDescriptors _ := hdescs
  getMemoryTypeAtAddress f hf ad old _ := by
    obtain rfl : (fun address _ => memAdapterGetMemoryTypeAtAddress address) = f :=
      Option.some.inj hf
    exact htype ad
  queryAccess f hf ad l old _ := by
    obtain rfl : (fun a n _ => uefiBridgeQueryMemoryAccess fw a n) = f := Option.some.inj hf
    exact h.query ad l
  dumpValidRanges _ := h.dumpMemoryRanges true
  clearScreen _ := h.console _
  setAttribute _ _ := h.console _
  setCursorPosition _ _ _ := h.console _
  outputString _ _ := h.print _ _
  outputStringAt _ _ _ _ := h.closed.seq (h.console _) fun _ => h.print _ _
  readKey _ := h.closed.seq h.readKey fun _ => h.closed.ret _
  readHex n _ := h.tuiReadHex n
  getScreenDimensions _ := h.closed.ret _
  reportError _ _ _ := h.print _ _

end

end UefiServes

theorem efiStatusToUiStatus_eq_success {status : EfiStatus} :
    efiStatusToUiStatus status = .success ↔ efiError status = false := by
  rw [efiStatusToUiStatus]
  split_ifs with h <;> simp_all

/-! ## The memory map -/

/-- The Core descriptors, as PageMem gets them. -/
def coreDescriptors (w : UefiWorld) : List NxMemoryDescriptor :=
  w.gCoreDescriptors.take w.gCoreDescriptorCount.toNat

/-- The type lookup of the memory adapter. -/
theorem memAdapterGetMemoryTypeAtAddress_eq (w : UefiWorld) (address : NxU64) :
    memAdapterGetMemoryTypeAtAddress address w =
      (some (match (coreDescriptors w).find? (NxMemoryDescriptor.containsAddress address) with
        | none => (.success, 0, false)
        | some desc => (.success, desc.uefiType, true)), w) := by
  simp only [memAdapterGetMemoryTypeAtAddress]
  rw [Prog.bind_of_some (Prog.get_apply w), ← coreDescriptors]
  rcases (coreDescriptors w).find? (NxMemoryDescriptor.containsAddress address) with _ | desc <;> rfl

/-- The memory map is the same, in NexusMemLib and in the memory adapter. -/
structure SameMaps (bs : BootServices) (w w' : UefiWorld) : Prop where
  lib : SameMap bs w.memLib w'.memLib
  core : coreDescriptors w' = coreDescriptors w

/-- The memory map and physical memory are the same. -/
structure Untouched (bs : BootServices) (w w' : UefiWorld) : Prop extends SameMaps bs w w' where
  memory : w'.memory = w.memory

instance (bs : BootServices) : IsPreorder UefiWorld (SameMaps bs) where
  refl w := ⟨.refl w.memLib, rfl⟩
  trans _ _ _ h h' := ⟨h.lib.trans h'.lib, h'.core.trans h.core⟩

instance (bs : BootServices) : IsPreorder UefiWorld (Untouched bs) where
  refl w := ⟨⟨.refl w.memLib, rfl⟩, rfl⟩
  trans _ _ _ h h' := ⟨⟨h.lib.trans h'.lib, h'.core.trans h.core⟩, h'.memory.trans h.memory⟩

/-- Only the memory library has changed, and it has the same map. -/
theorem Untouched.of_lib {bs : BootServices} {w : UefiWorld} {lib : MemLib}
    (h : SameMap bs w.memLib lib) : Untouched bs w { w with memLib := lib } := ⟨⟨h, rfl⟩, rfl⟩

section
variable {w : UefiWorld} {a : NxU64} {width : NxUintn}

theorem uefiBridgeMemRead_of_allowed (h : ReadAllowed fw.bootServices w.memLib a width) :
    ∃ lib', uefiBridgeMemRead fw a width w =
        (some (.success, BitVec.ofNat 64 (ByteMem.load w.memory a width.toNat)),
          { w with memLib := lib' }) ∧ SameMap fw.bootServices w.memLib lib' := by
  obtain ⟨lib', hr, hsame⟩ := memRead_of_allowed w.memory 0 h
  refine ⟨lib', ?_, hsame⟩
  simp only [uefiBridgeMemRead, hr]
  rfl

theorem uefiBridgeMemRead_of_not_allowed (h : ¬ ReadAllowed fw.bootServices w.memLib a width) :
    ∃ status lib', uefiBridgeMemRead fw a width w =
        (some (status, 0), { w with memLib := lib' }) ∧ nxUiError status = true ∧
      SameMap fw.bootServices w.memLib lib' := by
  obtain ⟨status, lib', hr, he, hsame⟩ := memRead_of_not_allowed w.memory 0 h
  refine ⟨efiStatusToUiStatus status, lib', ?_, ?_, hsame⟩
  · simp only [uefiBridgeMemRead, hr, if_pos he]
  · simpa [nxUiError, efiStatusToUiStatus_eq_success] using he

theorem uefiBridgeMemWrite_of_allowed (value : NxU64)
    (h : WriteAllowed fw.bootServices w.memLib a width) :
    ∃ lib', uefiBridgeMemWrite fw a width value w =
        (some .success,
          { w with memLib := lib', memory := ByteMem.store w.memory a width.toNat value.toNat }) ∧
      SameMap fw.bootServices w.memLib lib' := by
  obtain ⟨lib', hr, hsame⟩ := memWrite_of_allowed w.memory value h
  refine ⟨lib', ?_, hsame⟩
  simp only [uefiBridgeMemWrite, hr]
  rfl

theorem uefiBridgeMemWrite_of_not_allowed (value : NxU64)
    (h : ¬ WriteAllowed fw.bootServices w.memLib a width) :
    ∃ status lib', uefiBridgeMemWrite fw a width value w =
        (some status, { w with memLib := lib' }) ∧ nxUiError status = true ∧
      SameMap fw.bootServices w.memLib lib' := by
  obtain ⟨status, lib', hr, he, hsame⟩ := memWrite_of_not_allowed w.memory value h
  refine ⟨efiStatusToUiStatus status, lib', ?_, ?_, hsame⟩
  · simp only [uefiBridgeMemWrite, hr]
  · simpa [nxUiError, efiStatusToUiStatus_eq_success] using he

end

theorem uefiBridgeMemRead_untouched (a : NxU64) (width : NxUintn) :
    Prog.Sat (Untouched fw.bootServices) (uefiBridgeMemRead fw a width) := by
  intro w
  by_cases h : ReadAllowed fw.bootServices w.memLib a width
  · obtain ⟨lib', hr, hsame⟩ := uefiBridgeMemRead_of_allowed h
    rw [hr]
    exact Untouched.of_lib hsame
  · obtain ⟨status, lib', hr, -, hsame⟩ := uefiBridgeMemRead_of_not_allowed h
    rw [hr]
    exact Untouched.of_lib hsame

/-- **What the adapters do**: a relation that is kept wherever the memory map and
    physical memory are untouched is kept by all calls, if the initialization
    and the writes keep it. -/
theorem uefiAdapters_sat {R : UefiWorld → UefiWorld → Prop} [IsPreorder UefiWorld R]
    {S : AdapterCall → Prop} (hR : ∀ w w', Untouched fw.bootServices w w' → R w w')
    (hinit : S .init → Prog.Sat R (memAdapterInit fw))
    (hwrite : ∀ a width value, S (.memWrite a width value) →
      Prog.Sat R (uefiBridgeMemWrite fw a width value)) :
    (uefiAdapters fw).Serves S (Prog.Sat R) := by
  have hmachine : UefiServes fw (Prog.Sat R) :=
    { closed := Prog.Sat.closed
      hang := Prog.Sat.hang
      console := fun op w => hR _ _ ⟨⟨.refl _, rfl⟩, rfl⟩
      readKey := fun w => by
        rw [tuiReadKey]
        rcases w.keys with _ | ⟨key, keys⟩
        · exact refl_of R w
        · exact hR _ _ ⟨⟨.refl _, rfl⟩, rfl⟩
      query := fun a n w => hR _ _ (.of_lib (query_sameMap _ w.memLib a n))
      getLib := fun f hf w => hf w.memLib w
      getKeys := fun f hf w => hf w.keys.length w }
  refine hmachine.serves hinit (fun a width _ w => hR _ _ (uefiBridgeMemRead_untouched a width w))
    hwrite (fun w => refl_of R w) fun a w => ?_
  rw [memAdapterGetMemoryTypeAtAddress_eq]
  exact refl_of R w

/-- A write keeps the memory map. -/
theorem uefiAdapters_sameMaps (fw : Firmware) :
    (uefiAdapters fw).Serves (· ≠ .init) (Prog.Sat (SameMaps fw.bootServices)) := by
  refine uefiAdapters_sat (fun _ _ h => h.toSameMaps) (fun h => absurd rfl h)
    fun a width value _ w => ?_
  by_cases h : WriteAllowed fw.bootServices w.memLib a width
  · obtain ⟨lib', hr, hsame⟩ := uefiBridgeMemWrite_of_allowed value h
    rw [hr]; exact ⟨hsame, rfl⟩
  · obtain ⟨status, lib', hr, -, hsame⟩ := uefiBridgeMemWrite_of_not_allowed value h
    rw [hr]; exact ⟨hsame, rfl⟩

end UefiNexus
