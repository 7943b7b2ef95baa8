/-
  Denied memory does not reach the screen.

  * `Readable bs lib x`: some access that `MemRead` allows covers the byte `x`;
  * `Alike bs lib w w'`: two machines that differ in bytes that are not readable
    only;
  * every call of the adapters takes machines that are alike to machines that
    are alike, and returns the same (`uefiAdapters_alike`), so two runs on them
    make the same calls and go through the same page states.
-/
import UefiNexus.Proof.AccessParts
import UefiNexus.Proof.Keys
import UefiNexus.Proof.Machine

namespace UefiNexus

variable {fw : Firmware} {bs : BootServices} {lib : MemLib} {α : Type}

/-- The byte is covered by an access that `MemRead` allows. -/
def Readable (bs : BootServices) (lib : MemLib) (x : NxU64) : Prop :=
  ∃ a width, ReadAllowed bs lib a width ∧ ∃ i < width.toNat, x = a + BitVec.ofNat 64 i

/-- The machines differ in bytes of physical memory that are not readable. -/
structure Alike (bs : BootServices) (lib : MemLib) (w w' : UefiWorld) : Prop where
  eq : w' = { w with memory := w'.memory }
  map : SameMap bs lib w.memLib
  bytes : ∀ x, Readable bs lib x → w'.memory x = w.memory x

theorem Alike.exists_memory {w w' : UefiWorld} (h : Alike bs lib w w') :
    ∃ memory, w' = { w with memory := memory } := ⟨_, h.eq⟩

theorem SameMap.readAllowed {lib' : MemLib} (h : SameMap bs lib lib') {a : NxU64}
    {width : NxUintn} : ReadAllowed bs lib' a width ↔ ReadAllowed bs lib a width := by
  simp only [ReadAllowed, h.granted]

/-! ## Operations that do not look at memory -/

/-- What the program does does not depend on memory. -/
def Blind (m : Prog UefiWorld α) : Prop :=
  ∀ w memory, m { w with memory := memory } = ((m w).1, { (m w).2 with memory := memory })

/-- A program that neither looks at memory nor changes it or the map. -/
theorem Blind.alike {m : Prog UefiWorld α} (hm : Blind m)
    (hsat : Prog.Sat (Untouched fw.bootServices) m) :
    Prog.Agree (Alike fw.bootServices lib) m := by
  intro w w' h
  obtain ⟨memory, rfl⟩ := h.exists_memory
  have hw := hsat w
  rw [hm w memory]
  exact ⟨rfl, rfl, h.map.trans hw.lib, fun x hx => by rw [hw.memory]; exact h.bytes x hx⟩

theorem memAdapterInit_blind (fw : Firmware) : Blind (memAdapterInit fw) := by
  intro w memory
  have hbridge : uefiBridgeInitMemoryMap fw { w with memory := memory } =
      ((uefiBridgeInitMemoryMap fw w).1,
        { (uefiBridgeInitMemoryMap fw w).2 with memory := memory }) := by
    simp only [uefiBridgeInitMemoryMap]
    split_ifs
    · rfl
    · rfl
    · rfl
  rcases hb : uefiBridgeInitMemoryMap fw w with ⟨_ | status, w₁⟩
  · rw [hb] at hbridge
    rw [memAdapterInit, Prog.bind_of_none hb, Prog.bind_of_none hbridge]
  replace hbridge : uefiBridgeInitMemoryMap fw { w with memory := memory } =
      (some status, { w₁ with memory := memory }) := by
    rw [hb] at hbridge; exact hbridge
  rw [memAdapterInit, Prog.bind_of_some hb, Prog.bind_of_some hbridge]
  by_cases herr : nxUiError status = true
  · rw [if_pos herr]; rfl
  rw [if_neg herr, Prog.bind_of_some (Prog.get_apply w₁),
    Prog.bind_of_some (Prog.get_apply ({ w₁ with memory := memory } : UefiWorld))]
  by_cases hzero : w₁.gBridgeMemoryMapSize = 0 ∨ w₁.gBridgeDescriptorSize = 0
  · rw [if_pos hzero]; rfl
  · rw [if_neg hzero]; rfl

/-! ## Reads and writes -/

theorem load_eq_of_alike {w w' : UefiWorld} (h : Alike bs lib w w') {a : NxU64} {width : NxUintn}
    (ha : ReadAllowed bs lib a width) :
    ByteMem.load w'.memory a width.toNat = ByteMem.load w.memory a width.toNat :=
  ByteMem.load_congr fun i hi => h.bytes _ ⟨a, width, ha, i, hi, rfl⟩

/-- A read depends on the bytes of its range only, and only if it is allowed. -/
theorem memRead_congr {memory memory' : PhysMem} {a : NxU64} {width : NxUintn}
    (h : ReadAllowed bs lib a width →
      ByteMem.load memory' a width.toNat = ByteMem.load memory a width.toNat) (old : NxU64) :
    memRead bs lib memory' a width (some old) = memRead bs lib memory a width (some old) := by
  simp only [memRead]
  by_cases hs : isSupportedWidth width = true
  swap
  · rw [if_pos hs, if_pos hs]
  by_cases hv : (isRangeValid bs lib a width).1 = true
  swap
  · rw [if_neg (not_not.2 hs), if_neg (not_not.2 hs), if_pos hv, if_pos hv]
  by_cases ha : isAligned a width = true
  swap
  · rw [if_neg (not_not.2 hs), if_neg (not_not.2 hs), if_neg (not_not.2 hv),
      if_neg (not_not.2 hv), if_pos ha, if_pos ha]
  have hw := isSupportedWidth_iff.1 hs
  have hload := h ⟨hw, (isAligned_iff hw).1 ha, isRangeValid_iff.1 hv⟩
  simp only [hs, hv, ha, not_true_eq_false, if_false]
  refine (hw.chain fun n => (efiSuccess, some (BitVec.ofNat 64 (ByteMem.load memory' a n)),
    (isRangeValid bs lib a width).2)).trans ?_
  rw [hload]
  exact (hw.chain fun n => (efiSuccess, some (BitVec.ofNat 64 (ByteMem.load memory a n)),
    (isRangeValid bs lib a width).2)).symm

/-- A write does not look at memory. -/
theorem memWrite_eq (bs : BootServices) (lib : MemLib) (a : NxU64) (width : NxUintn)
    (value : NxU64) :
    ∃ status lib', SameMap bs lib lib' ∧ ∀ memory : PhysMem,
      (WriteAllowed bs lib a width → memWrite bs lib memory a width value =
        (status, ByteMem.store memory a width.toNat value.toNat, lib')) ∧
      (¬ WriteAllowed bs lib a width → memWrite bs lib memory a width value =
        (status, memory, lib')) := by
  have hsame := query_sameMap bs lib a width
  simp only [memWrite]
  by_cases hs : isSupportedWidth width = true
  swap
  · refine ⟨_, _, .refl lib, fun memory => ⟨fun h => ?_, fun _ => if_pos hs⟩⟩
    exact absurd (isSupportedWidth_iff.2 h.1) hs
  have hw := isSupportedWidth_iff.1 hs
  simp only [if_neg (not_not.2 hs)]
  by_cases hv : (isRangeWritable bs lib a width).1 = true
  swap
  · refine ⟨_, _, hsame, fun memory => ⟨fun h => ?_, fun _ => if_pos hv⟩⟩
    exact absurd (isRangeWritable_iff.2 h.2.2) hv
  simp only [if_neg (not_not.2 hv)]
  by_cases ha : isAligned a width = true
  swap
  · refine ⟨_, _, hsame, fun memory => ⟨fun h => ?_, fun _ => if_pos ha⟩⟩
    exact absurd ((isAligned_iff hw).2 h.2.1) ha
  simp only [if_neg (not_not.2 ha)]
  refine ⟨efiSuccess, (isRangeWritable bs lib a width).2, hsame, fun memory => ⟨fun _ => ?_,
    fun h => ?_⟩⟩
  · exact hw.chain fun n =>
      (efiSuccess, ByteMem.store memory a n value.toNat, (isRangeWritable bs lib a width).2)
  · exact absurd ⟨hw, (isAligned_iff hw).1 ha, isRangeWritable_iff.1 hv⟩ h

theorem uefiBridgeMemRead_alike (a : NxU64) (width : NxUintn) :
    Prog.Agree (Alike fw.bootServices lib) (uefiBridgeMemRead fw a width) := by
  intro w w' h
  obtain ⟨memory, rfl⟩ := h.exists_memory
  have hr : memRead fw.bootServices w.memLib memory a width (some 0) =
      memRead fw.bootServices w.memLib w.memory a width (some 0) :=
    memRead_congr (fun ha => load_eq_of_alike h (h.map.readAllowed.1 ha)) 0
  have heq : uefiBridgeMemRead fw a width { w with memory := memory } =
      ((uefiBridgeMemRead fw a width w).1,
        { (uefiBridgeMemRead fw a width w).2 with memory := memory }) := by
    simp only [uefiBridgeMemRead, hr]
    split_ifs
    · rfl
    · rfl
  have hw : Untouched fw.bootServices w (uefiBridgeMemRead fw a width w).2 :=
    uefiBridgeMemRead_untouched a width w
  rw [heq]
  exact ⟨rfl, rfl, h.map.trans hw.lib, fun x hx => by rw [hw.memory]; exact h.bytes x hx⟩

theorem uefiBridgeMemWrite_alike (a : NxU64) (width : NxUintn) (value : NxU64) :
    Prog.Agree (Alike fw.bootServices lib) (uefiBridgeMemWrite fw a width value) := by
  intro w w' h
  obtain ⟨memory, rfl⟩ := h.exists_memory
  obtain ⟨status, lib', hsame, hwrite⟩ := memWrite_eq fw.bootServices w.memLib a width value
  by_cases ha : WriteAllowed fw.bootServices w.memLib a width
  · have hstore : ∀ x, Readable fw.bootServices lib x →
        ByteMem.store memory a width.toNat value.toNat x =
          ByteMem.store w.memory a width.toNat value.toNat x := by
      intro x hx
      have hbyte : memory x = w.memory x := h.bytes x hx
      rw [ByteMem.store, ByteMem.store, hbyte]
    rw [uefiBridgeMemWrite, uefiBridgeMemWrite, (hwrite memory).1 ha, (hwrite w.memory).1 ha]
    exact ⟨rfl, rfl, h.map.trans hsame, hstore⟩
  · rw [uefiBridgeMemWrite, uefiBridgeMemWrite, (hwrite memory).2 ha, (hwrite w.memory).2 ha]
    exact ⟨rfl, rfl, h.map.trans hsame, h.bytes⟩

/-! ## The calls -/

theorem alike_serves (fw : Firmware) (lib : MemLib) :
    UefiServes fw (Prog.Agree (Alike fw.bootServices lib)) where
  closed := Prog.Agree.closed _
  hang := Prog.Agree.hang _
  console op := Blind.alike (fun _ _ => rfl) fun _ => ⟨⟨.refl _, rfl⟩, rfl⟩
  readKey := by
    refine Blind.alike (fun w memory => ?_) fun w => ?_
    · obtain ⟨lib, inits, bridge, size, stride, core, count, old, keys, console⟩ := w
      cases keys with
      | nil => rfl
      | cons key keys => rfl
    · rw [tuiReadKey]
      rcases w.keys with _ | ⟨key, keys⟩ <;> exact ⟨⟨.refl _, rfl⟩, rfl⟩
  query a n := Blind.alike (fun _ _ => rfl) fun w => .of_lib (query_sameMap _ w.memLib a n)
  getLib f hf w w' h := by
    obtain ⟨memory, rfl⟩ := h.exists_memory
    exact hf w.memLib w { w with memory := memory } h
  getKeys f hf w w' h := by
    obtain ⟨memory, rfl⟩ := h.exists_memory
    exact hf w.keys.length w { w with memory := memory } h

/-- **The calls after the initialization** return the same on machines that are
    alike, and leave them alike. -/
theorem uefiAdapters_alike (fw : Firmware) (lib : MemLib) :
    (uefiAdapters fw).Serves (· ≠ .init) (Prog.Agree (Alike fw.bootServices lib)) := by
  refine (alike_serves fw lib).serves (fun h => absurd rfl h)
    (fun a width _ => uefiBridgeMemRead_alike a width)
    (fun a width value _ => uefiBridgeMemWrite_alike a width value) ?_ fun a => ?_
  · exact Blind.alike (fun _ _ => rfl) fun w => refl_of _ w
  · refine Blind.alike (fun w memory => ?_) fun w => ?_
    · rw [memAdapterGetMemoryTypeAtAddress_eq, memAdapterGetMemoryTypeAtAddress_eq]; rfl
    · rw [memAdapterGetMemoryTypeAtAddress_eq]; exact refl_of _ w

/-! ## Runs -/

/-- The machines are alike, and the calls made on them are the same. -/
def SameCalls (bs : BootServices) (lib : MemLib) (p p' : UefiWorld × List AdapterCall) : Prop :=
  Alike bs lib p.1 p'.1 ∧ p'.2 = p.2

theorem record_sameCalls {m : Prog UefiWorld α} (c : AdapterCall)
    (hm : Prog.Agree (Alike bs lib) m) : Prog.Agree (SameCalls bs lib) (record c m) := by
  rintro ⟨w, calls⟩ ⟨w', calls'⟩ ⟨halike, hcalls⟩
  obtain ⟨hres, halike'⟩ := hm w w' halike
  dsimp only at hcalls
  exact ⟨hres, halike', by rw [record, record, hcalls]⟩

theorem traced_sameCalls (fw : Firmware) (lib : MemLib) :
    (traced (uefiAdapters fw)).Serves (· ≠ .init)
      (Prog.Agree (SameCalls fw.bootServices lib)) :=
  (uefiAdapters_alike fw lib).traced (Prog.Agree.closed _) (Prog.Agree.hang _)
    fun c _ _ hm => record_sameCalls c hm

/-- The initialization makes machines that are alike of machines that differ in
    bytes that will not be readable. -/
theorem init_sameCalls {fw : Firmware} {w : UefiWorld} {memory : PhysMem}
    (h : ∀ x, Readable fw.bootServices (memAdapterInit fw w).2.memLib x → memory x = w.memory x)
    (hmem : (memAdapterInit fw w).2.memory = w.memory) (calls : List AdapterCall) :
    ((traced (uefiAdapters fw)).memory.init (w, calls)).1 =
        ((traced (uefiAdapters fw)).memory.init ({ w with memory := memory }, calls)).1 ∧
      SameCalls fw.bootServices (memAdapterInit fw w).2.memLib
        ((traced (uefiAdapters fw)).memory.init (w, calls)).2
        ((traced (uefiAdapters fw)).memory.init ({ w with memory := memory }, calls)).2 := by
  have hblind := memAdapterInit_blind fw w memory
  have halike : Alike fw.bootServices (memAdapterInit fw w).2.memLib (memAdapterInit fw w).2
      { (memAdapterInit fw w).2 with memory := memory } :=
    ⟨rfl, .refl _, fun x hx => by rw [hmem]; exact h x hx⟩
  show (memAdapterInit fw w).1 = (memAdapterInit fw { w with memory := memory }).1 ∧
    SameCalls _ _ ((memAdapterInit fw w).2, calls ++ [.init])
      ((memAdapterInit fw { w with memory := memory }).2, calls ++ [.init])
  rw [hblind]
  exact ⟨rfl, halike, rfl⟩

/-- **Denied memory does not reach the screen.**  Take two physical memories that
    agree on the bytes of all accesses that `MemRead` allows.  Then two runs on
    them, of any length, return the same, make the same calls of the adapters
    with the same arguments, go through the same page states, and leave machines
    that differ in physical memory only. -/
theorem denied_memory_not_shown (fw : Firmware) (pageState : PageMemPageState) (w : UefiWorld)
    (memory : PhysMem)
    (h : ∀ (a : NxU64) (width : NxUintn),
      (memRead fw.bootServices (memAdapterInit fw w).2.memLib w.memory a width (some 0)).1 =
        efiSuccess →
      ∀ i < width.toNat, memory (a + BitVec.ofNat 64 i) = w.memory (a + BitVec.ofNat 64 i)) :
    (∀ fuel, ∃ r calls v memory',
      pageMemControllerRun (traced (uefiAdapters fw)) pageState fuel (w, []) = (r, v, calls) ∧
      pageMemControllerRun (traced (uefiAdapters fw)) pageState fuel
        ({ w with memory := memory }, []) = (r, { v with memory := memory' }, calls)) ∧
    (∀ n, Option.Rel (fun p p' => p.1 = p'.1 ∧ p.2.2 = p'.2.2)
      (runVisits (traced (uefiAdapters fw)) n pageState (w, []))
      (runVisits (traced (uefiAdapters fw)) n pageState ({ w with memory := memory }, []))) := by
  have hbytes : ∀ x, Readable fw.bootServices (memAdapterInit fw w).2.memLib x →
      memory x = w.memory x := by
    rintro x ⟨a, width, hread, i, hi, rfl⟩
    exact h a width (memRead_success_iff.2 hread) i hi
  have hmem : (memAdapterInit fw w).2.memory = w.memory := by
    have := congrArg (fun r => r.2.memory) (memAdapterInit_blind fw w w.memory)
    exact this
  have hinit := init_sameCalls hbytes hmem []
  have ha := traced_sameCalls fw (memAdapterInit fw w).2.memLib
  refine ⟨fun fuel => ?_, fun n => ?_⟩
  · obtain ⟨rest, heq, hrest⟩ := ha.pageMemControllerRun_rest pageState fuel
    obtain ⟨hres, halike, hcalls⟩ := Prog.Agree.seq hinit hrest
    rw [← heq] at hres halike hcalls
    obtain ⟨memory', hmemory⟩ := halike.exists_memory
    exact ⟨_, _, _, memory', rfl, Prod.ext hres.symm (Prod.ext hmemory hcalls)⟩
  · refine Prog.rel_mono (runVisits_agree ha hinit n pageState) ?_
    rintro p p' ⟨hstate, -, hcalls⟩
    exact ⟨hstate, hcalls.symm⟩

/-- The firmware with the mixed map, and everything read-only. -/
def mixedFirmware : Firmware :=
  .ofMap (.ofDescriptors mixedMap (by decide)) (some readOnlyProtocol) fun _ => 0

/-- The machine at boot, with `g` and ESC as the keys. -/
def mixedWorld : UefiWorld := .boot (fun _ => 0xAA) [⟨0, L 'g'⟩, ⟨0x17, 0⟩, ⟨0x17, 0⟩]

/-- Another memory, in which a byte outside the map differs. -/
def otherMemory : PhysMem := fun x => if x = 0 then 0xBB else 0xAA

/-- A page state before the initialization. -/
def blankState : PageMemPageState :=
  ⟨.viewing, ⟨0, 0, 0⟩, ⟨none⟩, 0, false, ⟨0, 0, false, false, false, false⟩, false⟩

theorem denied_memory_not_shown_mixed :
    ∃ r calls v memory',
      pageMemControllerRun (traced (uefiAdapters mixedFirmware)) blankState 3 (mixedWorld, []) =
        (r, v, calls) ∧
      pageMemControllerRun (traced (uefiAdapters mixedFirmware)) blankState 3
        ({ mixedWorld with memory := otherMemory }, []) =
          (r, { v with memory := memory' }, calls) := by
  refine (denied_memory_not_shown mixedFirmware blankState mixedWorld otherMemory ?_).1 3
  intro a width hread i hi
  obtain ⟨-, -, desc, attributes, hg, -⟩ := memRead_success_iff.1 hread
  have hmap : (memAdapterInit mixedFirmware mixedWorld).2.memLib.descriptors = mixedMap := by
    decide
  have hdesc : desc ∈ mixedMap := hmap ▸ hg.first.mem
  have hstart : ∀ d ∈ mixedMap, 0 < d.physicalStart.toNat := by decide
  have hlow : desc.physicalStart.toNat ≤ a.toNat := hg.first.holds.2.1
  have hpos := hstart desc hdesc
  have hwrap := hg.no_wrap
  have hne : a + BitVec.ofNat 64 i ≠ 0 := by
    intro h0
    have : (a + BitVec.ofNat 64 i).toNat = a.toNat + i := by
      rw [BitVec.toNat_add, BitVec.toNat_ofNat, Nat.mod_eq_of_lt (a := i) (by omega),
        Nat.mod_eq_of_lt (by omega)]
    rw [h0] at this
    simp only [BitVec.ofNat_eq_ofNat, BitVec.toNat_ofNat] at this
    omega
  rw [otherMemory, if_neg hne]
  rfl

end UefiNexus
