/-
  PageMem can be left.

  Escapes are the ESC keys after all other keystrokes.  Drawing, reading and looking
  up take no keystroke and return (`steady_…`); a prompt and the list of ranges can
  be left with one escape, so a key that is served needs at most one, and the loop
  one more (`controllerRun_left`).
-/
import UefiNexus.Lib.Input
import UefiNexus.Proof.Ranges
import UefiNexus.Proof.Console

namespace UefiNexus

open Input (Steady Ends Left)

variable {fw : Firmware} {pageState : PageMemPageState}

/-- The ESC key. -/
def escKey : EfiInputKey := ⟨scanEsc, 0⟩

/-! ## Programs that take no keystroke -/

/-- A program that returns and leaves the keystrokes alone. -/
abbrev StillKeys {α : Type} (m : Prog UefiWorld α) : Prop := Steady UefiWorld.keys m

theorem still_request (op : ConsoleOp) : StillKeys (consoleRequest op) :=
  fun _ => ⟨(), _, rfl, rfl⟩

theorem still_stringAt (column row : NxUintn) (string : List NxUiChar) :
    StillKeys ((uefiAdapters fw).tui.outputStringAt column row string) :=
  (still_request _).seq fun _ => still_request _

theorem still_dimensions : StillKeys (uefiAdapters fw).tui.getScreenDimensions := .pure _

theorem still_read (address : NxU64) (width : NxUintn) :
    StillKeys ((uefiAdapters fw).memory.memRead address width) := by
  intro w
  show ∃ a w', uefiBridgeMemRead fw address width w = (some a, w') ∧ w'.keys = w.keys
  rw [uefiBridgeMemRead]
  dsimp only
  split_ifs
  · exact ⟨_, _, rfl, rfl⟩
  · exact ⟨_, _, rfl, rfl⟩

theorem still_each {ι : Type} {f : ι → Prog UefiWorld Unit} (h : ∀ i, StillKeys (f i)) :
    ∀ is, StillKeys (Prog.each f is)
  | [] => .pure ()
  | i :: is => (h i).seq fun _ => still_each h is

/-! ## The view -/

theorem still_clearRow (row : NxUintn) : StillKeys (clearRow (uefiAdapters fw).tui row) :=
  still_dimensions.seq fun _ => still_stringAt _ _ _

theorem still_info : StillKeys (pageMemViewUpdateInfo (uefiAdapters fw).tui pageState) :=
  (still_clearRow _).seq fun _ => still_stringAt _ _ _

theorem still_cell (offset : NxUintn) (highlight : NxBool) :
    StillKeys (pageMemViewUpdateCell (uefiAdapters fw).tui (uefiAdapters fw).memory pageState
      offset highlight) := by
  have hshow : ∀ column row string, StillKeys (do
      (uefiAdapters fw).tui.outputStringAt column row string
      (uefiAdapters fw).tui.setAttribute pageMemAttrNormal) := fun _ _ _ =>
    (still_stringAt _ _ _).seq fun _ => still_request _
  refine (still_request _).seq fun _ => ?_
  dsimp only
  split_ifs
  · exact (still_read _ _).seq fun _ => hshow _ _ _
  · exact (Steady.pure _).seq fun _ => hshow _ _ _

theorem still_previewFrom (offset : NxUintn) :
    ∀ n index, StillKeys (asciiPreviewFrom (uefiAdapters fw).memory pageState offset n index)
  | 0, _ => .pure _
  | n + 1, index => by
    have hchar : ∀ r : NxStatus × NxU64, StillKeys (if ¬ nxUiError r.1 = true ∧
        r.2.setWidth 8 ≥ (32 : NxU8) ∧ r.2.setWidth 8 ≤ (126 : NxU8)
        then pure ((r.2.setWidth 8).setWidth 16) else pure (L '.')) := by
      intro r
      split_ifs
      · exact .pure _
      · exact .pure _
    have hpreview : StillKeys
        (asciiPreviewChar (uefiAdapters fw).memory pageState offset index) := by
      rw [asciiPreviewChar]
      dsimp only
      split_ifs
      · exact (still_read _ _).seq hchar
      · exact (Steady.pure _).seq hchar
    exact hpreview.seq fun _ => (still_previewFrom offset n (index + 1)).seq fun _ => .pure _

theorem still_step (offset : NxUintn) :
    StillKeys (drawMemoryStep (uefiAdapters fw).tui (uefiAdapters fw).memory pageState offset) := by
  rw [drawMemoryStep]
  split_ifs
  · exact (still_stringAt _ _ _).seq fun _ =>
      ((still_previewFrom _ _ _).seq fun _ => still_stringAt _ _ _).seq fun _ => still_cell _ _
  · exact still_cell _ _

theorem still_help : StillKeys (drawPageHelp (uefiAdapters fw).tui) :=
  (still_clearRow _).seq fun _ => (still_clearRow _).seq fun _ =>
    (still_stringAt _ _ _).seq fun _ => still_stringAt _ _ _

/-- A redraw at a supported width. -/
theorem still_drawPage (hw : WidthOk pageState.cursorState.width) :
    StillKeys (pageMemViewDrawPage (uefiAdapters fw).tui (uefiAdapters fw).memory pageState) := by
  have hframe : StillKeys (drawPageFrame (uefiAdapters fw).tui pageState) :=
    (still_request _).seq fun _ => (still_stringAt _ _ _).seq fun _ => still_stringAt _ _ _
  have hheader : StillKeys (drawMemoryHeader (uefiAdapters fw).tui pageState) := by
    rw [drawMemoryHeader_eq _ _ hw]
    exact (still_request _).seq fun _ => (still_request _).seq fun _ =>
      still_each (fun _ => still_request _) _
  have hrows : StillKeys
      (drawMemoryRows (uefiAdapters fw).tui (uefiAdapters fw).memory pageState) := by
    rw [drawMemoryRows_eq _ _ _ hw]
    exact still_each (fun _ => still_step _) _
  exact hframe.seq fun _ => hheader.seq fun _ => hrows.seq fun _ =>
    still_help.seq fun _ => still_info

/-! ## The controller -/

theorem still_report (message : List NxUiChar) (status : NxStatus) :
    StillKeys ((uefiAdapters fw).error.reportError message status) :=
  still_request _

theorem still_updatePageType :
    StillKeys (pageMemControllerUpdatePageType pageState (uefiAdapters fw)) := by
  have hlookup : ∀ address, StillKeys (memAdapterGetMemoryTypeAtAddress address) := by
    intro address w
    rw [memAdapterGetMemoryTypeAtAddress_eq]
    exact ⟨_, _, rfl, rfl⟩
  refine (hlookup _).seq fun r => ?_
  obtain ⟨status, type, found⟩ := r
  dsimp only
  split_ifs
  · exact (still_report _ _).seq fun _ => .pure _
  · have hquery : ∀ a n, StillKeys (uefiBridgeQueryMemoryAccess fw a n) :=
      fun a n w => ⟨_, _, rfl, rfl⟩
    exact (hquery _ _).seq fun _ => .pure _

theorem still_updateMovedPage (old : NxU64) (status : NxStatus) :
    StillKeys (updateMovedPage old status pageState (uefiAdapters fw)) := by
  rw [updateMovedPage]
  split_ifs
  · exact still_updatePageType
  · exact .pure _

theorem still_moveCursor (delta : NxIntn) :
    StillKeys (moveCursorByKey delta pageState (uefiAdapters fw)) := by
  rw [moveCursorByKey]
  dsimp only
  split_ifs
  · exact (still_cell _ _).seq fun _ => (still_cell _ _).seq fun _ => still_info.seq fun _ => .pure _
  · exact .pure _

theorem still_memoryInit : StillKeys (memAdapterInit fw) := by
  have hbridge : StillKeys (uefiBridgeInitMemoryMap fw) := by
    intro w
    rw [uefiBridgeInitMemoryMap]
    dsimp only
    split_ifs
    · exact ⟨_, _, rfl, rfl⟩
    · exact ⟨_, _, rfl, rfl⟩
    · exact ⟨_, _, rfl, rfl⟩
  refine hbridge.seq fun status => ?_
  split_ifs
  · exact .pure _
  intro w
  rw [Prog.bind_of_some (Prog.get_apply w)]
  split_ifs
  · exact ⟨_, _, rfl, rfl⟩
  · exact ⟨_, _, rfl, rfl⟩

theorem still_init (fw : Firmware) (pageState : PageMemPageState) :
    StillKeys (pageMemControllerInit pageState (uefiAdapters fw)) := by
  have hdescs : StillKeys memAdapterGetMemoryMapDescriptors := fun _ => ⟨_, _, rfl, rfl⟩
  refine still_memoryInit.seq fun status => ?_
  split_ifs
  · exact (still_report _ _).seq fun _ => .pure _
  refine hdescs.seq fun descriptors => ?_
  dsimp only
  split_ifs
  · exact .pure _
  · exact .pure _
  · exact still_updatePageType

/-! ## Prompts and lists -/

/-- `m` can be left with `d` escapes. -/
abbrev LeftWith {α : Type} (d : ℕ) (m : Prog UefiWorld α) : Prop := Ends UefiWorld.keys escKey d m

/-- The characters typed at a prompt. -/
theorem still_editHexBuffer (maxDigits : ℕ) (key : EfiInputKey) (buffer : List NxUiChar)
    (index : ℕ) : StillKeys (editHexBuffer maxDigits key buffer index) := by
  have hback : ∀ s : List NxUiChar × ℕ,
      StillKeys (if key.unicodeChar = charBackspace ∧ s.2 > 0 then do
          print [charBackspace, L ' ', charBackspace] []
          pure (s.1, s.2 - 1)
        else pure s) := by
    intro s
    split_ifs
    · exact (still_request _).seq fun _ => .pure _
    · exact .pure _
  rw [editHexBuffer]
  dsimp only
  split_ifs
  · exact (still_request _).seq fun _ => (Steady.pure _).seq hback
  · exact (Steady.pure _).seq hback

/-- The body of the loop of `TuiReadHex`. -/
def readHexServe (strHexToUint64 : List NxUiChar → NxU64) (maxDigits : ℕ)
    (s : List NxUiChar × ℕ) : Prog UefiWorld (List NxUiChar × ℕ ⊕ Bool × NxU64) := do
  let key ← tuiReadKey
  if key.scanCode = scanEsc then return .inr (false, 0)
  else if key.unicodeChar = charCarriageReturn then
    return .inr (true, strHexToUint64 (cstr (s.1.set s.2 0)))
  else
    let s ← editHexBuffer maxDigits key s.1 s.2
    return .inl s

theorem tuiReadHexLoop_eq (strHexToUint64 : List NxUiChar → NxU64) (maxDigits : ℕ) :
    ∀ (fuel : ℕ) (buffer : List NxUiChar) (index : ℕ),
      tuiReadHexLoop strHexToUint64 maxDigits fuel buffer index =
        Prog.loop pure (readHexServe strHexToUint64 maxDigits) fuel (buffer, index)
  | 0, _, _ => rfl
  | fuel + 1, buffer, index => by
    rw [Input.loop_pure_succ, tuiReadHexLoop]
    simp only [readHexServe, Prog.seq_assoc]
    refine congrArg _ (funext fun key => ?_)
    split_ifs
    · rfl
    · rfl
    · rw [Prog.seq_assoc]
      refine congrArg _ (funext fun s => ?_)
      exact tuiReadHexLoop_eq strHexToUint64 maxDigits fuel s.1 s.2

theorem readKey_apply {w : UefiWorld} {key : EfiInputKey} {keys : List EfiInputKey}
    (hw : w.keys = key :: keys) : tuiReadKey w = (some key, { w with keys := keys }) := by
  rw [tuiReadKey, hw]

/-- A prompt is left at an escape. -/
theorem readHex_left (fw : Firmware) (maxDigits : NxUintn) : LeftWith 1 (tuiReadHex fw maxDigits) := by
  have hkey : ∀ (m : ℕ) (s : List NxUiChar × ℕ) (key : EfiInputKey), StillKeys (if key.scanCode = scanEsc then pure (.inr (false, 0))
      else if key.unicodeChar = charCarriageReturn then
        pure (.inr (true, fw.strHexToUint64 (cstr (s.1.set s.2 0))))
      else editHexBuffer m key s.1 s.2 >>= fun s => pure (.inl s) :
        Prog UefiWorld (List NxUiChar × ℕ ⊕ Bool × NxU64)) := by
    intro m s key
    split_ifs
    · exact .pure _
    · exact .pure _
    · exact (still_editHexBuffer _ _ _ _).seq fun _ => .pure _
  intro w ks n rest hw hn
  simp only [tuiReadHex, tuiReadHexLoop_eq]
  refine Ends.loop (I := fun _ => True) (fun s _ w => ⟨s, w, rfl, trivial, rfl⟩) ?_
    (fun _ _ _ _ _ _ => trivial) ?_ w.keys.length _ trivial w ks n rest hw hn ?_
    (Nat.lt_succ_self ks.length)
  · intro s _ w k ks n rest hw _ _
    obtain ⟨r, w', hrun, hkeys⟩ := hkey _ s k { w with keys := ks ++ (List.replicate n escKey ++ rest) }
    refine ⟨r, w', ?_, ?_⟩
    · rw [readHexServe, Prog.bind_of_some (readKey_apply hw)]
      exact hrun
    · rw [hkeys]
      exact Left.refl ks n rest
  · intro s _ w keys hw
    refine ⟨(false, 0), { w with keys := keys }, ?_, rfl⟩
    rw [readHexServe, Prog.bind_of_some (readKey_apply hw)]
    rfl
  · rw [hw, List.length_append, List.length_append, List.length_replicate]
    omega

/-- The keys a list takes, with escapes after the keystrokes: an escape is no
    answer. -/
theorem answersGiven_left (q n : ℕ) (ks rest : List EfiInputKey) (hn : 1 ≤ n) :
    (answersGiven q (ks ++ (List.replicate n escKey ++ rest))).length <
        (ks ++ (List.replicate n escKey ++ rest)).length ∧
      Left escKey ks n rest 1 ((ks ++ (List.replicate n escKey ++ rest)).drop
        ((answersGiven q (ks ++ (List.replicate n escKey ++ rest))).length + 1)) := by
  obtain ⟨n, rfl⟩ := Nat.exists_eq_add_of_le' hn
  have hprefix : answersGiven q (ks ++ (List.replicate (n + 1) escKey ++ rest)) <+:
      ks ++ (List.replicate (n + 1) escKey ++ rest) :=
    (List.takeWhile_prefix _).trans (List.take_prefix _ _)
  have hle : (answersGiven q (ks ++ (List.replicate (n + 1) escKey ++ rest))).length ≤
      ks.length := by
    by_contra hlt
    have hanswer := hprefix.getElem (Nat.lt_of_not_le hlt)
    refine answersGiven_ne_esc (List.getElem_mem (Nat.lt_of_not_le hlt)) ?_
    rw [hanswer, List.getElem_append_right (Nat.le_refl _)]
    simp [escKey]
  generalize (answersGiven q (ks ++ (List.replicate (n + 1) escKey ++ rest))).length = m at hle ⊢
  refine ⟨by rw [List.length_append, List.length_append, List.length_replicate]; omega, ?_⟩
  rcases Nat.lt_or_eq_of_le hle with hlt | rfl
  · rw [List.drop_append_of_le_length hlt]
    exact (Left.refl _ _ _).mono (List.drop_suffix _ _) (Nat.zero_le 1)
  · rw [List.drop_append, List.drop_of_length_le (Nat.le_succ _), Nat.add_sub_cancel_left]
    exact (Left.escape n rest).mono List.nil_suffix (Nat.le_refl 1)

/-- The list of ranges. -/
theorem dumpMemoryRanges_left (showAllTypes : Bool) :
    LeftWith 1 (dumpMemoryRanges fw showAllTypes) := by
  intro w ks n rest hw hn
  by_cases hmap : w.memLib.gMemMap.isNone ∨ w.memLib.gDescSize = 0
  · refine ⟨(), w, ?_, ?_⟩
    · rw [dumpMemoryRanges, Prog.bind_of_some (Prog.get_apply w), if_pos hmap]
      rfl
    · rw [hw]
      exact (Left.refl ks n rest).mono List.suffix_rfl (Nat.zero_le 1)
  · obtain ⟨w', hrun, h⟩ := dumpMemoryRanges_output fw showAllTypes w hmap
    obtain ⟨hlt, hleft⟩ := answersGiven_left
      ((rangeLines fw.bootServices showAllTypes w.memLib).length / linesPerScreen) n ks rest hn
    rw [← hw, ← rangeAnswers] at hlt hleft
    refine ⟨(), w', ?_, ?_⟩
    · rw [hrun, if_pos hlt]
    · rw [h.keys]
      exact hleft

/-! ## The keys of PageMem -/

theorem valuePrompt_left : LeftWith 1 (valuePrompt (uefiAdapters fw).tui pageState) := by
  have hclear : StillKeys (clearStatusLine (uefiAdapters fw).tui) :=
    still_dimensions.seq fun _ => still_stringAt _ _ _
  have htext : StillKeys ((uefiAdapters fw).tui.outputStringAt 0 pageMemStatusRow
      (wide "Edit value (hex): ")) := still_stringAt _ _ _
  have hprompt := hclear.ends.seq fun _ => htext.ends.seq fun _ =>
    readHex_left fw (pageState.cursorState.width * 2)
  exact hprompt

theorem editValue_left : LeftWith 1 (pageMemActionEditValue pageState (uefiAdapters fw)) := by
  have hreport : ∀ message : List NxUiChar, LeftWith 1 (do
      (uefiAdapters fw).error.reportError message .invalidParameter
      return NxStatus.invalidParameter) := fun _ =>
    ((still_report _ _).seq fun _ => .pure _).ends.mono (Nat.zero_le 1)
  rw [editValue_eq]
  rcases editRejects pageState with _ | message
  · have hcommit : ∀ r, StillKeys (commitValue (uefiAdapters fw) pageState r) := by
      intro r
      rw [commitValue]
      split_ifs
      · exact fun _ => ⟨_, _, rfl, rfl⟩
      · exact (still_report _ _).seq fun _ => .pure _
      · exact .pure _
    exact valuePrompt_left.seq fun r => (hcommit r).ends
  · exact hreport message

theorem gotoAddress_left : LeftWith 1 (pageMemActionGotoAddress pageState (uefiAdapters fw)) := by
  have hclear : StillKeys (clearGotoPrompt (uefiAdapters fw).tui) :=
    still_dimensions.seq fun _ => (still_stringAt _ _ _).seq fun _ => still_stringAt _ _ _
  have htext : StillKeys ((uefiAdapters fw).tui.outputStringAt pageMemGotoPromptColumn
      pageMemHelpRow (wide "Goto address (hex):")) := still_stringAt _ _ _
  have hprompt : LeftWith 1 (gotoPrompt (uefiAdapters fw).tui) :=
    htext.ends.seq fun _ => readHex_left fw 16
  refine hprompt.seq fun r => Steady.ends ?_
  obtain ⟨committed, address⟩ := r
  dsimp only
  split_ifs
  · exact hclear.seq fun _ => .pure _
  · exact hclear.seq fun _ => .pure _

theorem handleCommand_left (unicodeChar : NxUiChar) :
    LeftWith 1 (handleCommand unicodeChar pageState (uefiAdapters fw)) := by
  have hstill : ∀ {α : Type} {m : Prog UefiWorld α}, StillKeys m → LeftWith 1 m :=
    fun h => h.ends.mono (Nat.zero_le 1)
  rw [handleCommand]
  rcases command unicodeChar with _ | c
  · exact hstill (.pure _)
  cases c with
  | edit => exact editValue_left.seq fun _ => (Steady.pure _).ends
  | goto => exact gotoAddress_left.seq fun _ => (still_updateMovedPage _ _).ends
  | pageDown => exact hstill (still_updateMovedPage _ _)
  | pageUp => exact hstill (still_updateMovedPage _ _)
  | ranges => exact (dumpMemoryRanges_left true).seq fun _ => (Steady.pure _).ends
  | width width => exact hstill (.pure _)

/-- A key of PageMem, once it has been read. -/
theorem handleKeyPress_left (key : NxUiKey) :
    LeftWith 1 (pageMemControllerHandleKeyPress key pageState (uefiAdapters fw)) := by
  rw [pageMemControllerHandleKeyPress]
  dsimp only
  split_ifs
  · exact (Steady.pure _).ends.mono (Nat.zero_le 1)
  · exact (still_moveCursor _).ends.mono (Nat.zero_le 1)
  · exact handleCommand_left _

/-! ## The run -/

theorem redrawIfNeeded_still (s : PageMemPageState) (hs : WidthOk s.cursorState.width)
    (w : UefiWorld) :
    ∃ s' w', redrawIfNeeded (uefiAdapters fw) s w = (some s', w') ∧
      WidthOk s'.cursorState.width ∧ w'.keys = w.keys := by
  have hstill : StillKeys (redrawIfNeeded (uefiAdapters fw) s) := by
    rw [redrawIfNeeded]
    split_ifs
    · exact (still_drawPage hs).seq fun _ => .pure _
    · exact .pure _
  obtain ⟨s', w', hrun, hkeys⟩ := hstill w
  refine ⟨s', w', hrun, ?_, hkeys⟩
  rw [redrawIfNeeded_eq hrun]
  exact hs

theorem readKey_uefi {w : UefiWorld} {key : EfiInputKey} {keys : List EfiInputKey}
    (hw : w.keys = key :: keys) : (uefiAdapters fw).tui.readKey w =
      (some ⟨key.scanCode.setWidth 32, key.unicodeChar⟩, { w with keys := keys }) :=
  Prog.bind_of_some (readKey_apply hw)

theorem serveKey_left (s : PageMemPageState) {w : UefiWorld} {key : EfiInputKey}
    {ks rest : List EfiInputKey} {n : ℕ}
    (hw : w.keys = key :: (ks ++ (List.replicate n escKey ++ rest))) (hn : 1 ≤ n) :
    ∃ r w', serveKey (uefiAdapters fw) s w = (some r, w') ∧ Left escKey ks n rest 1 w'.keys := by
  have hreport : ∀ r : NxStatus × PageMemPageState, StillKeys
      (if r.1 = .aborted ∧ key.scanCode.setWidth 32 = nxUiScanEsc then pure (.inr .success)
      else if isReported r.1 then do
        (uefiAdapters fw).error.reportError (wide "PageMem action failed") r.1
        return .inl r.2
      else pure (.inl r.2) : Prog UefiWorld (PageMemPageState ⊕ NxStatus)) := by
    intro r
    split_ifs
    · exact .pure _
    · exact (still_report _ _).seq fun _ => .pure _
    · exact .pure _
  have hkey : LeftWith 1 (pageMemControllerHandleKeyPress
      ⟨key.scanCode.setWidth 32, key.unicodeChar⟩ s (uefiAdapters fw) >>= _) :=
    (handleKeyPress_left _).seq fun r => (hreport r).ends
  obtain ⟨r, w', hrun, hleft⟩ := hkey { w with keys := _ } ks n rest rfl hn
  exact ⟨r, w', by rw [serveKey, Prog.bind_of_some (readKey_uefi hw)]; exact hrun, hleft⟩

theorem serveKey_escape (s : PageMemPageState) {w : UefiWorld} {ks : List EfiInputKey}
    (hw : w.keys = escKey :: ks) :
    ∃ a w', serveKey (uefiAdapters fw) s w = (some (.inr a), w') ∧ w'.keys = ks :=
  ⟨.success, _, serveKey_eq_inr.2 ⟨rfl, _, readKey_uefi hw, rfl⟩, rfl⟩

theorem serveKey_width (s : PageMemPageState) (w : UefiWorld) (s' : PageMemPageState)
    (w' : UefiWorld) (hs : WidthOk s.cursorState.width)
    (h : serveKey (uefiAdapters fw) s w = (some (.inl s'), w')) : WidthOk s'.cursorState.width := by
  obtain ⟨key, w₁, status, w₂, -, hpress, -⟩ := serveKey_eq_inl h
  exact (handleKeyPress_steps hpress).2.widthOk hs

/-- **PageMem can be left** with two escapes: one for a prompt or a list that is
    open, and one for the page. -/
theorem controllerRun_left (pageState : PageMemPageState) {w : UefiWorld}
    {ks rest : List EfiInputKey} {n fuel : ℕ}
    (hw : w.keys = ks ++ (List.replicate n escKey ++ rest)) (hn : 2 ≤ n)
    (hfuel : ks.length < fuel) :
    ∃ status w', pageMemControllerRun (uefiAdapters fw) pageState fuel w = (some status, w') ∧
      Left escKey ks n rest 2 w'.keys := by
  obtain ⟨⟨status, pageState₁⟩, w₁, hinit, hkeys⟩ :=
    still_init fw pageState w
  rw [hw] at hkeys
  rw [pageMemControllerRun, Prog.bind_of_some hinit]
  dsimp only
  by_cases herr : nxUiError status = true
  · rw [if_pos herr]
    refine ⟨status, w₁, rfl, ?_⟩
    rw [hkeys]
    exact (Left.refl ks n rest).mono List.suffix_rfl (Nat.zero_le 2)
  rw [if_neg herr]
  obtain ⟨_, _, _, _, _, _, hcursor, -⟩ := pageMemControllerInit_success hinit (by simpa using herr)
  have hwidth : WidthOk pageState₁.cursorState.width := by
    rw [hcursor]
    exact Or.inl rfl
  exact Ends.loop (I := fun s => WidthOk s.cursorState.width) redrawIfNeeded_still
    (fun s _ w k ks n rest hw hn _ => serveKey_left s hw hn) serveKey_width
    (fun s _ w ks hw => serveKey_escape s hw) fuel pageState₁ hwidth w₁ ks n rest hkeys hn hfuel
    hfuel

end UefiNexus
