/-
  Physical memory changes at the cursor only.

  * `CommittedWrite fw s w value w'`: all that holds when an edit of the page
    state `s` has written `value`;
  * an edit is such a write, or it leaves memory alone (`editValue_spec`);
    every other key leaves memory alone (`handleKeyPress_untouched`);
  * `WritesAllowed bs lib`: memory has changed only where the map of `lib`
    allows a write; so it is along a whole run.
-/
import UefiNexus.Proof.Keys
import UefiNexus.Proof.Machine
import UefiNexus.Proof.Outcomes

namespace UefiNexus

variable {fw : Firmware} {pageState : PageMemPageState} {key : NxUiKey} {w w' : UefiWorld}

/-! ## The edit -/

/-- The prompt of `PageMemActionEditValue`. -/
def editPrompt (pageState : PageMemPageState) (fw : Firmware) : Prog UefiWorld (NxBool × NxU64) := do
  clearStatusLine (tuiAdapter fw)
  (tuiAdapter fw).outputStringAt 0 pageMemStatusRow (wide "Edit value (hex): ")
  (tuiAdapter fw).readHex (pageState.cursorState.width * 2)

/-- The prompt has been committed with a value, the cursor selects an aligned
    range of the address map, the range may be written, and the bytes of the
    value are there afterwards. -/
structure CommittedWrite (fw : Firmware) (pageState : PageMemPageState) (w : UefiWorld)
    (value : NxU64) (w' : UefiWorld) : Prop where
  committed : ∃ w₁, editPrompt pageState fw w = (some (true, value), w₁)
  fits : pageMemValueFitsWidth value pageState.cursorState.width = true
  aligned : pageState.cursorState.offset % pageState.cursorState.width = 0
  valid : pageCoreIsRangeValid pageState.addressMap
    (pageCoreGetCurrentAddress pageState.cursorState) pageState.cursorState.width = true
  allowed : WriteAllowed fw.bootServices w.memLib (pageCoreGetCurrentAddress pageState.cursorState)
    pageState.cursorState.width
  memory : w'.memory = ByteMem.store w.memory (pageCoreGetCurrentAddress pageState.cursorState)
    pageState.cursorState.width.toNat value.toNat

/-- The calls of the adapters that leave physical memory alone. -/
theorem uefiAdapters_untouched (fw : Firmware) :
    (uefiAdapters fw).Serves AdapterCall.Quiet (Prog.Sat (Untouched fw.bootServices)) :=
  uefiAdapters_sat (fun _ _ h => h) False.elim fun _ _ _ => False.elim

theorem editPrompt_untouched (fw : Firmware) (pageState : PageMemPageState) :
    Prog.Sat (Untouched fw.bootServices) (editPrompt pageState fw) := by
  have ha := uefiAdapters_untouched fw
  exact ha.closed.seq ha.silent.clearStatusLine fun _ =>
    ha.closed.seq (ha.outputStringAt _ _ _ trivial) fun _ => ha.readHex _ trivial

/-- The policy of writes is one of the map. -/
theorem SameMap.writeAllowed {bs : BootServices} {lib lib' : MemLib} (h : SameMap bs lib lib')
    {a : NxU64} {width : NxUintn} : WriteAllowed bs lib' a width ↔ WriteAllowed bs lib a width := by
  simp only [WriteAllowed, h.granted]

/-- The write of an edit whose prompt has been committed. -/
theorem editWrite_spec {value : NxU64} {w₁ : UefiWorld}
    (hp : editPrompt pageState fw w = (some (true, value), w₁))
    (hprompt : Untouched fw.bootServices w w₁)
    (hfits : pageMemValueFitsWidth value pageState.cursorState.width = true)
    (haccept : editRejects pageState = none) :
    (uefiBridgeMemWrite fw (pageCoreGetCurrentAddress pageState.cursorState)
        pageState.cursorState.width value w₁).1 = some .success ∧
      CommittedWrite fw pageState w value
        (uefiBridgeMemWrite fw (pageCoreGetCurrentAddress pageState.cursorState)
          pageState.cursorState.width value w₁).2 ∨
    (uefiBridgeMemWrite fw (pageCoreGetCurrentAddress pageState.cursorState)
        pageState.cursorState.width value w₁).1 ≠ some .success ∧
      Untouched fw.bootServices w (uefiBridgeMemWrite fw
        (pageCoreGetCurrentAddress pageState.cursorState) pageState.cursorState.width value w₁).2 := by
  obtain ⟨-, halign, hvalid⟩ := editRejects_eq_none_iff.1 haccept
  by_cases hallowed : WriteAllowed fw.bootServices w.memLib
      (pageCoreGetCurrentAddress pageState.cursorState) pageState.cursorState.width
  · obtain ⟨lib', hw, -⟩ :=
      uefiBridgeMemWrite_of_allowed value (hprompt.lib.writeAllowed.2 hallowed)
    refine Or.inl ⟨?_, ⟨w₁, hp⟩, hfits, halign, hvalid, hallowed, ?_⟩
    · rw [hw]
    · simp only [hw, hprompt.memory]
  · obtain ⟨status, lib', hw, herr, hsame⟩ := uefiBridgeMemWrite_of_not_allowed value
      fun h => hallowed (hprompt.lib.writeAllowed.1 h)
    rw [hw]
    refine Or.inr ⟨?_, trans_of _ hprompt (Untouched.of_lib hsame)⟩
    rintro ⟨⟩
    cases herr

/-- **An edit** writes at the cursor and succeeds, or it leaves memory alone and
    does not succeed. -/
theorem editValue_spec (fw : Firmware) (pageState : PageMemPageState) (w : UefiWorld) :
    (pageMemActionEditValue pageState (uefiAdapters fw) w).1 = some .success ∧
      (∃ value, CommittedWrite fw pageState w value
        (pageMemActionEditValue pageState (uefiAdapters fw) w).2) ∨
    (pageMemActionEditValue pageState (uefiAdapters fw) w).1 ≠ some .success ∧
      Untouched fw.bootServices w (pageMemActionEditValue pageState (uefiAdapters fw) w).2 := by
  have hfail : ∀ message status (v : UefiWorld), status ≠ NxStatus.success →
      Untouched fw.bootServices w v →
      ((do errorAdapter.reportError message status; pure status : Prog UefiWorld NxStatus) v).1 ≠
          some .success ∧
        Untouched fw.bootServices w
          ((do errorAdapter.reportError message status; pure status : Prog UefiWorld NxStatus) v).2 := by
    intro message status v hstatus hv
    have hreport : Untouched fw.bootServices v
        ((do errorAdapter.reportError message status; pure status : Prog UefiWorld NxStatus) v).2 :=
      ⟨⟨.refl v.memLib, rfl⟩, rfl⟩
    exact ⟨fun h => hstatus (Option.some.inj h), trans_of _ hv hreport⟩
  rw [editValue_eq]
  rcases hreject : editRejects pageState with _ | message
  · have hsame : valuePrompt (uefiAdapters fw).tui pageState = editPrompt pageState fw := rfl
    have hprompt := editPrompt_untouched fw pageState w
    dsimp only
    rw [hsame]
    rcases hp : editPrompt pageState fw w with ⟨_ | ⟨committed, value⟩, w₁⟩
    · rw [hp] at hprompt
      rw [Prog.bind_of_none hp]
      exact Or.inr ⟨by simp, hprompt⟩
    replace hprompt : Untouched fw.bootServices w w₁ := by rw [hp] at hprompt; exact hprompt
    rw [Prog.bind_of_some hp, commitValue]
    dsimp only
    by_cases hcommitted : ¬ committed = true
    · rw [if_pos hcommitted]
      exact Or.inr ⟨by simp, hprompt⟩
    rw [if_neg hcommitted]
    by_cases hfits : ¬ pageMemValueFitsWidth value pageState.cursorState.width = true
    · rw [if_pos hfits]
      exact Or.inr (hfail _ _ w₁ (by decide) hprompt)
    rw [if_neg hfits]
    obtain rfl : committed = true := not_not.1 hcommitted
    have hmemWrite : (uefiAdapters fw).memory.memWrite = uefiBridgeMemWrite fw := rfl
    rw [hmemWrite]
    exact (editWrite_spec hp hprompt (not_not.1 hfits) hreject).imp_left
      fun h => ⟨h.1, value, h.2⟩
  · exact Or.inr (hfail message _ w (by decide) (refl_of _ w))

/-! ## The keys -/

theorem command_edit_iff {c : NxUiChar} : command c = some .edit ↔ c = L 'e' ∨ c = L 'E' := by
  rw [command]
  split_ifs with h <;> simp_all

/-- What a key does that is not an edit. -/
theorem handleKeyPress_untouched (hkey : ¬ IsCommand key pageState.cursorState.width .edit) :
    Prog.Sat (Untouched fw.bootServices)
      (pageMemControllerHandleKeyPress key pageState (uefiAdapters fw)) := by
  have ha := uefiAdapters_untouched fw
  rw [pageMemControllerHandleKeyPress]
  dsimp only
  by_cases hesc : key.scanCode = nxUiScanEsc
  · rw [if_pos hesc]; exact ha.closed.ret _
  rw [if_neg hesc]
  by_cases hdelta : keyDelta key pageState.cursorState.width ≠ 0
  · rw [if_pos hdelta]; exact ha.silent.moveCursorByKey pageState _
  rw [if_neg hdelta]
  exact ha.handleCommand pageState _ fun hcmd => hkey ⟨hesc, not_not.1 hdelta, hcmd⟩

/-- A key that is an edit. -/
theorem handleKeyPress_edit (hkey : IsCommand key pageState.cursorState.width .edit) :
    (pageMemControllerHandleKeyPress key pageState (uefiAdapters fw) w).2 =
      (pageMemActionEditValue pageState (uefiAdapters fw) w).2 := by
  rw [pageMemControllerHandleKeyPress, if_neg hkey.not_esc]
  simp only [hkey.not_arrow, ne_eq, not_true_eq_false, if_false, handleCommand, hkey.command]
  have hstate : pageMemActionEditValue (pageCoreTransitionState pageState .editing)
      (uefiAdapters fw) = pageMemActionEditValue pageState (uefiAdapters fw) := rfl
  rw [hstate]
  rcases hedit : pageMemActionEditValue pageState (uefiAdapters fw) w with ⟨_ | status, w₁⟩
  · rw [Prog.bind_of_none hedit]
  · rw [Prog.bind_of_some hedit]; rfl

/-- Serving a key does to memory what handling it does. -/
theorem serveKey_memory (pageState : PageMemPageState)
    (hread : (uefiAdapters fw).tui.readKey w = (some key, w')) :
    (serveKey (uefiAdapters fw) pageState w).2.memory =
      (pageMemControllerHandleKeyPress key pageState (uefiAdapters fw) w').2.memory := by
  have ha := uefiAdapters_untouched fw
  rw [serveKey, Prog.bind_of_some hread]
  rcases hpress : pageMemControllerHandleKeyPress key pageState (uefiAdapters fw) w' with
    ⟨_ | ⟨status, pageState'⟩, w₂⟩
  · rw [Prog.bind_of_none hpress]
  rw [Prog.bind_of_some hpress]
  dsimp only
  split_ifs
  · rfl
  · rfl
  · rfl

/-- Without a key, nothing is served. -/
theorem serveKey_none (hread : ((uefiAdapters fw).tui.readKey w).1 = none) :
    (serveKey (uefiAdapters fw) pageState w).2.memory = w.memory := by
  have h := (uefiAdapters_untouched fw).readKey trivial w
  rcases hr : (uefiAdapters fw).tui.readKey w with ⟨_ | key, w₁⟩
  · rw [serveKey, Prog.bind_of_none hr]
    rw [hr] at h
    exact h.memory
  · rw [hr] at hread; cases hread

/-! ## Runs -/

/-- Memory has changed only where the map of `lib` allows a write, if the map of
    `lib` was in use. -/
def WritesAllowed (bs : BootServices) (lib : MemLib) (w w' : UefiWorld) : Prop :=
  SameMap bs lib w.memLib → SameMap bs lib w'.memLib ∧
    ∀ x, w'.memory x ≠ w.memory x → ∃ a width, WriteAllowed bs lib a width ∧
      a.toNat ≤ x.toNat ∧ x.toNat < a.toNat + width.toNat

instance (bs : BootServices) (lib : MemLib) : IsPreorder UefiWorld (WritesAllowed bs lib) where
  refl w h := ⟨h, fun _ hx => absurd rfl hx⟩
  trans w₁ w₂ w₃ h₁₂ h₂₃ h := by
    obtain ⟨hmap, hx₁⟩ := h₁₂ h
    obtain ⟨hmap', hx₂⟩ := h₂₃ hmap
    refine ⟨hmap', fun x hx => ?_⟩
    by_cases hchanged : w₂.memory x = w₁.memory x
    · exact hx₂ x fun h => hx (h.trans hchanged)
    · exact hx₁ x hchanged

theorem Untouched.writesAllowed {bs : BootServices} {lib : MemLib} (h : Untouched bs w w') :
    WritesAllowed bs lib w w' :=
  fun hmap => ⟨hmap.trans h.lib, fun x hx => absurd (congrFun h.memory x) hx⟩

/-- The calls after the initialization write where the map allows it. -/
theorem uefiAdapters_writesAllowed (fw : Firmware) (lib : MemLib) :
    (uefiAdapters fw).Serves (· ≠ .init) (Prog.Sat (WritesAllowed fw.bootServices lib)) := by
  refine uefiAdapters_sat (fun _ _ h => h.writesAllowed) (fun h => absurd rfl h)
    fun a width value _ w hmap => ?_
  by_cases h : WriteAllowed fw.bootServices w.memLib a width
  · obtain ⟨lib', hw, hsame⟩ := uefiBridgeMemWrite_of_allowed value h
    rw [hw]
    refine ⟨hmap.trans hsame, fun x hx => ⟨a, width, hmap.writeAllowed.1 h, ?_⟩⟩
    obtain ⟨-, -, desc, attributes, hg, -⟩ := h
    by_contra hout
    exact hx ((store_apply hg.no_wrap.le x).trans (if_neg hout))
  · obtain ⟨status, lib', hw, -, hsame⟩ := uefiBridgeMemWrite_of_not_allowed value h
    rw [hw]
    exact ⟨hmap.trans hsame, fun x hx => absurd rfl hx⟩

/-- Physical memory is the same. -/
def SameMemory (w w' : UefiWorld) : Prop := w'.memory = w.memory

instance : IsPreorder UefiWorld SameMemory where
  refl _ := rfl
  trans _ _ _ h h' := h'.trans h

/-- The initialization leaves memory alone. -/
theorem memAdapterInit_memory (fw : Firmware) : Prog.Sat SameMemory (memAdapterInit fw) := by
  have hc := Prog.Sat.closed (R := SameMemory)
  refine hc.seq (fun w => ?_) fun status => ?_
  · simp only [uefiBridgeInitMemoryMap]
    split_ifs
    · rfl
    · rfl
    · rfl
  split_ifs
  · exact hc.ret _
  refine hc.seq (fun w => rfl) fun w => ?_
  dsimp only
  split_ifs
  · exact hc.seq (fun w => rfl) fun _ => hc.ret _
  · exact hc.seq (fun w => rfl) fun _ => hc.ret _
  · exact hc.seq (fun w => rfl) fun _ => hc.ret _

/-- The calls that are not writes leave memory alone. -/
theorem uefiAdapters_sameMemory (fw : Firmware) :
    (uefiAdapters fw).Serves (fun c => ∀ a width value, c ≠ .memWrite a width value)
      (Prog.Sat SameMemory) :=
  uefiAdapters_sat (fun _ _ h => h.memory) (fun _ => memAdapterInit_memory fw)
    fun a width value h => absurd rfl (h a width value)

/-- **Physical memory changes at the cursor only.**  Neither the initialization
    nor a redraw changes memory.  A key changes it only if it is `e` or `E`, the
    prompt is committed, and the edit succeeds: then exactly the bytes of the
    selected range change, to the bytes of the value, and the range is aligned,
    in the address map, and may be written by the policy of NexusMemLib.  So all
    bytes a run changes lie in ranges that may be written by the map of its
    initialization. -/
theorem memory_changes_at_cursor (fw : Firmware) (pageState : PageMemPageState) (w : UefiWorld) :
    (pageMemControllerInit pageState (uefiAdapters fw) w).2.memory = w.memory ∧
    (∀ s v, (redrawIfNeeded (uefiAdapters fw) s v).2.memory = v.memory) ∧
    (∀ s v, (pageMemActionEditValue s (uefiAdapters fw) v).1 ≠ some .success →
      (pageMemActionEditValue s (uefiAdapters fw) v).2.memory = v.memory) ∧
    (∀ s v, (serveKey (uefiAdapters fw) s v).2.memory = v.memory ∨
      ∃ key v₁ value, (uefiAdapters fw).tui.readKey v = (some key, v₁) ∧
        (key.unicodeChar = L 'e' ∨ key.unicodeChar = L 'E') ∧
        (pageMemActionEditValue s (uefiAdapters fw) v₁).1 = some .success ∧
        CommittedWrite fw s v₁ value (serveKey (uefiAdapters fw) s v).2 ∧
        v₁.memory = v.memory ∧
        ∀ x, (serveKey (uefiAdapters fw) s v).2.memory x =
          if (pageCoreGetCurrentAddress s.cursorState).toNat ≤ x.toNat ∧
            x.toNat < (pageCoreGetCurrentAddress s.cursorState).toNat + s.cursorState.width.toNat
          then ByteMem.byteOf value.toNat
            (x.toNat - (pageCoreGetCurrentAddress s.cursorState).toNat)
          else v.memory x) ∧
    (∀ fuel x, (pageMemControllerRun (uefiAdapters fw) pageState fuel w).2.memory x ≠ w.memory x →
      ∃ a width, WriteAllowed fw.bootServices (memAdapterInit fw w).2.memLib a width ∧
        a.toNat ≤ x.toNat ∧ x.toNat < a.toNat + width.toNat) := by
  have hmem := uefiAdapters_sameMemory fw
  have hS : ∀ c, AdapterCall.Quiet c → ∀ a width value, c ≠ .memWrite a width value := by
    rintro c hc a width value rfl; exact hc
  refine ⟨hmem.pageMemControllerInit hS (by simp) pageState w,
    fun s v => (hmem.mono hS).drawn.redrawIfNeeded s v, fun s v h => ?_, fun s v => ?_,
    fun fuel x hx => ?_⟩
  · rcases editValue_spec fw s v with ⟨hok, -⟩ | ⟨-, hsame⟩
    · exact absurd hok h
    · exact hsame.memory
  · rcases hread : (uefiAdapters fw).tui.readKey v with ⟨_ | key, v₁⟩
    · exact Or.inl (serveKey_none (congrArg Prod.fst hread))
    have hv₁ : v₁.memory = v.memory := by
      have := (hmem.mono hS).readKey trivial v
      rw [hread] at this; exact this
    have hserve := serveKey_memory s hread
    by_cases hedit : IsCommand key s.cursorState.width .edit
    swap
    · exact Or.inl (hserve.trans ((handleKeyPress_untouched hedit v₁).memory.trans hv₁))
    rw [handleKeyPress_edit hedit] at hserve
    rcases editValue_spec fw s v₁ with ⟨hok, value, hwrite⟩ | ⟨-, hsame⟩
    · have hmemory := hserve.trans hwrite.memory
      refine Or.inr ⟨key, v₁, value, rfl, command_edit_iff.1 hedit.command, hok,
        { hwrite with memory := hmemory }, hv₁, fun x => ?_⟩
      obtain ⟨-, -, desc, attributes, hg, -⟩ := hwrite.allowed
      rw [hmemory, store_apply hg.no_wrap.le, hv₁]
    · exact Or.inl (hserve.trans (hsame.memory.trans hv₁))
  · obtain ⟨rest, heq, hrest⟩ := (uefiAdapters_writesAllowed fw
      (memAdapterInit fw w).2.memLib).pageMemControllerRun_rest pageState fuel
    have hinit := memAdapterInit_memory fw w
    rw [heq] at hx
    rcases hi : memAdapterInit fw w with ⟨_ | status, w₁⟩
    · have hi' : (uefiAdapters fw).memory.init w = (none, w₁) := hi
      rw [hi] at hinit
      rw [Prog.bind_of_none hi'] at hx
      exact absurd (congrFun hinit x) hx
    · have hi' : (uefiAdapters fw).memory.init w = (some status, w₁) := hi
      rw [hi] at hinit hrest
      rw [Prog.bind_of_some hi'] at hx
      exact (hrest status w₁ (.refl _)).2 x fun h => hx (h.trans (congrFun hinit x))

end UefiNexus
