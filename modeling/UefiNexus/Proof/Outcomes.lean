/-
  What a key does, case by case.

  * `EditRun a s w status w'`: the ways in which an edit ends;
  * `MovesPage a w key s s₁ w₁`: the key moves the cursor to another page; its
    action leaves `s₁` and `w₁`, and the type lookup comes next;
  * `KeyRun a key s w status s' w'`: the ways in which a key ends.
-/
import Mathlib.Tactic.Common
import UefiNexus.Proof.Access
import UefiNexus.Proof.Calls

namespace UefiNexus

variable {W : Type} {a : AdapterManager W} {key : NxUiKey} {status : NxStatus}
  {s s' pageState pageState' : PageMemPageState} {w w' : W}

/-! ## The edit -/

/-- The checks of an edit before its prompt, with the message of the one that
    fails. -/
def editRejects (s : PageMemPageState) : Option (List NxUiChar) :=
  let width := s.cursorState.width
  if width = 0 ∨ (width ≠ 1 ∧ width ≠ 2 ∧ width ≠ 4 ∧ width ≠ 8) then
    some (wide "Selected width is invalid")
  else if s.cursorState.offset % width ≠ 0 then some offsetNotAligned
  else if ¬ pageCoreIsRangeValid s.addressMap (pageCoreGetCurrentAddress s.cursorState) width then
    some (wide "Selected range is not valid")
  else none

/-- An edit gets to its prompt at an aligned, valid range of a supported width. -/
theorem editRejects_eq_none_iff : editRejects s = none ↔ WidthOk s.cursorState.width ∧
    s.cursorState.offset % s.cursorState.width = 0 ∧
    pageCoreIsRangeValid s.addressMap (pageCoreGetCurrentAddress s.cursorState)
      s.cursorState.width = true := by
  rw [editRejects]
  by_cases hwidth : s.cursorState.width = 0 ∨ s.cursorState.width ≠ 1 ∧
      s.cursorState.width ≠ 2 ∧ s.cursorState.width ≠ 4 ∧ s.cursorState.width ≠ 8
  · rw [if_pos hwidth]
    refine iff_of_false (by simp) fun h => ?_
    obtain h | h | h | h := h.1
    all_goals
      rw [h] at hwidth
      exact absurd hwidth (by decide)
  rw [if_neg hwidth]
  have hok : WidthOk s.cursorState.width := by
    rw [WidthOk]
    tauto
  by_cases halign : s.cursorState.offset % s.cursorState.width ≠ 0
  · rw [if_pos halign]
    exact iff_of_false (by simp) fun h => halign h.2.1
  rw [if_neg halign]
  by_cases hvalid : ¬ pageCoreIsRangeValid s.addressMap (pageCoreGetCurrentAddress s.cursorState)
      s.cursorState.width = true
  · rw [if_pos hvalid]
    exact iff_of_false (by simp) fun h => hvalid h.2.2
  rw [if_neg hvalid]
  exact iff_of_true rfl ⟨hok, not_not.1 halign, not_not.1 hvalid⟩

/-- The prompt of an edit. -/
def valuePrompt (tui : TuiAdapterInterface W) (s : PageMemPageState) :
    Prog W (NxBool × NxU64) := do
  clearStatusLine tui
  tui.outputStringAt 0 pageMemStatusRow (wide "Edit value (hex): ")
  tui.readHex (s.cursorState.width * 2)

theorem AdapterManager.Serves.valuePrompt {Φ : ∀ {α : Type}, Prog W α → Prop}
    (ha : a.Serves AdapterCall.Silent Φ) (s : PageMemPageState) : Φ (valuePrompt a.tui s) :=
  ha.closed.seq ha.clearStatusLine fun _ =>
    ha.closed.seq (ha.outputStringAt _ _ _ trivial) fun _ => ha.readHex _ trivial

/-- The ways in which an edit ends. -/
inductive EditRun (a : AdapterManager W) (s : PageMemPageState) (w : W) : NxStatus → W → Prop where
  | rejected {message : List NxUiChar} {w' : W} (h : editRejects s = some message)
    (hreport : a.error.reportError message .invalidParameter w = (some (), w')) :
    EditRun a s w .invalidParameter w'
  | cancelled {value : NxU64} {w' : W} (h : editRejects s = none)
    (hprompt : valuePrompt a.tui s w = (some (false, value), w')) : EditRun a s w .aborted w'
  | tooLarge {value : NxU64} {w₁ w' : W} (h : editRejects s = none)
    (hprompt : valuePrompt a.tui s w = (some (true, value), w₁))
    (hfits : pageMemValueFitsWidth value s.cursorState.width = false)
    (hreport : a.error.reportError (wide "Input value exceeds selected width") .invalidParameter
      w₁ = (some (), w')) : EditRun a s w .invalidParameter w'
  | write {value : NxU64} {w₁ : W} {status : NxStatus} {w' : W} (h : editRejects s = none)
    (hprompt : valuePrompt a.tui s w = (some (true, value), w₁))
    (hfits : pageMemValueFitsWidth value s.cursorState.width = true)
    (hwrite : a.memory.memWrite (pageCoreGetCurrentAddress s.cursorState) s.cursorState.width value
      w₁ = (some status, w')) : EditRun a s w status w'

/-- What an edit does with the result of its prompt. -/
def commitValue (a : AdapterManager W) (s : PageMemPageState) (r : NxBool × NxU64) :
    Prog W NxStatus :=
  if ¬ r.1 then pure .aborted
  else if ¬ pageMemValueFitsWidth r.2 s.cursorState.width then do
    a.error.reportError (wide "Input value exceeds selected width") .invalidParameter
    return .invalidParameter
  else a.memory.memWrite (pageCoreGetCurrentAddress s.cursorState) s.cursorState.width r.2

/-- An edit is its checks, its prompt and its write. -/
theorem editValue_eq (a : AdapterManager W) (s : PageMemPageState) :
    pageMemActionEditValue s a =
      match editRejects s with
      | some message => do
        a.error.reportError message .invalidParameter
        return .invalidParameter
      | none => valuePrompt a.tui s >>= commitValue a s := by
  simp only [pageMemActionEditValue, editRejects]
  split_ifs
  · rfl
  · rfl
  · simp only [valuePrompt, Prog.seq_assoc]
    rfl
  · rfl

/-- **How an edit ends.** -/
theorem editValue_run (h : pageMemActionEditValue s a w = (some status, w')) :
    EditRun a s w status w' := by
  rw [editValue_eq] at h
  rcases hreject : editRejects s with _ | message
  · rw [hreject] at h
    obtain ⟨⟨committed, value⟩, w₁, hprompt, h⟩ := Prog.bind_eq_some.1 h
    rw [commitValue] at h
    cases committed with
    | false =>
      obtain ⟨rfl, rfl⟩ := Prog.pure_eq_some.1 h
      exact .cancelled hreject hprompt
    | true =>
      rw [if_neg fun h => h rfl] at h
      split_ifs at h with hfits
      · exact .write hreject hprompt hfits h
      · obtain ⟨_, w₂, hreport, h⟩ := Prog.bind_eq_some.1 h
        obtain ⟨rfl, rfl⟩ := Prog.pure_eq_some.1 h
        exact .tooLarge hreject hprompt (by simpa using hfits) hreport
  · rw [hreject] at h
    obtain ⟨_, w₁, hreport, h⟩ := Prog.bind_eq_some.1 h
    obtain ⟨rfl, rfl⟩ := Prog.pure_eq_some.1 h
    exact .rejected hreject hreport

/-! ## The type lookup -/

/-- The access of a page before the adapter is asked for it. -/
def unknownAccess : NxMemoryAccess :=
  ⟨NxStatus.notFound.code.setWidth 64, 0, false, false, false, false⟩

/-- The ways in which a type lookup ends. -/
inductive TypeRun (a : AdapterManager W) (s : PageMemPageState) (w : W) :
    NxStatus → PageMemPageState → W → Prop where
  | unavailable {w' : W} (h : a.memory.getMemoryTypeAtAddress = none)
    (hreport : a.error.reportError (wide "Memory type lookup is unavailable") .notFound w =
      (some (), w')) : TypeRun a s w .notFound s w'
  | failed {f} {status : NxStatus} {type : NxU32} {found : NxBool} {w₁ w' : W}
    (h : a.memory.getMemoryTypeAtAddress = some f)
    (htype : f s.cursorState.address (s.pageUefiMemoryType, s.pageHasMemoryDescriptor) w =
      (some (status, type, found), w₁))
    (herr : nxUiError status = true)
    (hreport : a.error.reportError (wide "Memory type lookup failed") status w₁ = (some (), w')) :
    TypeRun a s w status { s with pageUefiMemoryType := type, pageHasMemoryDescriptor := found } w'
  | found {f} {type : NxU32} {found : NxBool} {access : NxMemoryAccess} {w₁ w' : W}
    (h : a.memory.getMemoryTypeAtAddress = some f)
    (htype : f s.cursorState.address (s.pageUefiMemoryType, s.pageHasMemoryDescriptor) w =
      (some (.success, type, found), w₁))
    (haccess : (match a.memory.queryAccess with
      | none => pure unknownAccess
      | some g => g s.cursorState.address pageSize unknownAccess) w₁ = (some access, w')) :
    TypeRun a s w .success
      { s with pageUefiMemoryType := type, pageHasMemoryDescriptor := found, pageAccess := access }
      w'

/-- **How a type lookup ends.** -/
theorem updatePageType_run
    (h : pageMemControllerUpdatePageType s a w = (some (status, s'), w')) :
    TypeRun a s w status s' w' := by
  rw [pageMemControllerUpdatePageType] at h
  rcases hf : a.memory.getMemoryTypeAtAddress with _ | f <;> rw [hf] at h
  · obtain ⟨_, w₁, hreport, h⟩ := Prog.bind_eq_some.1 h
    obtain ⟨h, rfl⟩ := Prog.pure_eq_some.1 h
    cases h
    exact .unavailable hf hreport
  obtain ⟨⟨st, type, found⟩, w₁, htype, h⟩ := Prog.bind_eq_some.1 h
  dsimp only at h
  by_cases herr : nxUiError st = true
  · rw [if_pos herr] at h
    obtain ⟨_, w₂, hreport, h⟩ := Prog.bind_eq_some.1 h
    obtain ⟨h, rfl⟩ := Prog.pure_eq_some.1 h
    cases h
    exact .failed hf htype herr hreport
  rw [if_neg herr] at h
  obtain rfl : st = .success := by simpa [nxUiError] using herr
  rcases hg : a.memory.queryAccess with _ | g <;> rw [hg] at h
  · obtain ⟨h, rfl⟩ := Prog.pure_eq_some.1 h
    cases h
    exact .found hf htype (by rw [hg]; rfl)
  · obtain ⟨access, w₂, haccess, h⟩ := Prog.bind_eq_some.1 h
    obtain ⟨h, rfl⟩ := Prog.pure_eq_some.1 h
    cases h
    exact .found hf htype (by rw [hg]; exact haccess)

/-! ## The keys -/

/-- The key is the command `c`. -/
structure IsCommand (key : NxUiKey) (width : NxUintn) (c : Command) : Prop where
  not_esc : key.scanCode ≠ nxUiScanEsc
  not_arrow : keyDelta key width = 0
  command : command key.unicodeChar = some c

/-- The key moves the cursor to another page.  Its action leaves `s₁` and `w₁`. -/
inductive MovesPage (a : AdapterManager W) (w : W) (key : NxUiKey) (s : PageMemPageState) :
    PageMemPageState → W → Prop where
  | goto {address : NxU64} {w₁ w₂ : W} (h : IsCommand key s.cursorState.width .goto)
    (hprompt : gotoPrompt a.tui w = (some (true, address), w₁))
    (hclear : clearGotoPrompt a.tui w₁ = (some (), w₂))
    (hmoved : pageCoreAlignToPage address pageSize ≠ s.cursorState.address) :
    MovesPage a w key s
      (pageCoreTransitionState (gotoState (pageCoreTransitionState s .goto) address) .viewing) w₂
  | pageDown (h : IsCommand key s.cursorState.width .pageDown)
    (hmoved : (pageMemActionPageDown s).2.cursorState.address ≠ s.cursorState.address) :
    MovesPage a w key s (pageMemActionPageDown s).2 w
  | pageUp (h : IsCommand key s.cursorState.width .pageUp)
    (hmoved : (pageMemActionPageUp s).2.cursorState.address ≠ s.cursorState.address) :
    MovesPage a w key s (pageMemActionPageUp s).2 w

/-- The ways in which a key ends. -/
inductive KeyRun (a : AdapterManager W) (key : NxUiKey) (s : PageMemPageState) (w : W) :
    NxStatus → PageMemPageState → W → Prop where
  | esc (h : key.scanCode = nxUiScanEsc) : KeyRun a key s w .aborted s w
  | arrow {s' : PageMemPageState} {w' : W} (hesc : key.scanCode ≠ nxUiScanEsc)
    (h : keyDelta key s.cursorState.width ≠ 0)
    (hmove : moveCursorByKey (keyDelta key s.cursorState.width) s a w = (some (.success, s'), w')) :
    KeyRun a key s w .success s' w'
  | edit {status : NxStatus} {w' : W} (h : IsCommand key s.cursorState.width .edit)
    (hedit : pageMemActionEditValue s a w = (some status, w')) :
    KeyRun a key s w status
      (pageCoreMarkForRedraw
        (pageCoreTransitionState (pageCoreTransitionState s .editing) .viewing)) w'
  | cancelled {address : NxU64} {w₁ w' : W} (h : IsCommand key s.cursorState.width .goto)
    (hprompt : gotoPrompt a.tui w = (some (false, address), w₁))
    (hclear : clearGotoPrompt a.tui w₁ = (some (), w')) :
    KeyRun a key s w .aborted
      (pageCoreTransitionState (pageCoreTransitionState s .goto) .viewing) w'
  | goto {address : NxU64} {w₁ w' : W} (h : IsCommand key s.cursorState.width .goto)
    (hprompt : gotoPrompt a.tui w = (some (true, address), w₁))
    (hclear : clearGotoPrompt a.tui w₁ = (some (), w'))
    (hsame : pageCoreAlignToPage address pageSize = s.cursorState.address) :
    KeyRun a key s w .success
      (pageCoreTransitionState (gotoState (pageCoreTransitionState s .goto) address) .viewing) w'
  | page {c : Command} (h : IsCommand key s.cursorState.width c) (hc : c = .pageDown ∨ c = .pageUp) :
    KeyRun a key s w .success s w
  | moves {s₁ : PageMemPageState} {w₁ : W} {status : NxStatus} {s' : PageMemPageState} {w' : W}
    (h : MovesPage a w key s s₁ w₁)
    (htype : pageMemControllerUpdatePageType s₁ a w₁ = (some (status, s'), w')) :
    KeyRun a key s w status s' w'
  | ranges {w' : W} (h : IsCommand key s.cursorState.width .ranges)
    (hdump : a.memory.dumpValidRanges w = (some (), w')) :
    KeyRun a key s w .success (pageCoreMarkForRedraw s) w'
  | width {width : NxUintn} (h : IsCommand key s.cursorState.width (.width width)) :
    KeyRun a key s w .success
      (pageCoreMarkForRedraw { s with cursorState := pageCoreSetCursorWidth s.cursorState width }) w
  | unknown (h : command key.unicodeChar = none) : KeyRun a key s w .notFound s w

theorem pageMemMoveToPage_cases (pageState : PageMemPageState) (address : NxU64) :
    pageMemMoveToPage pageState address = pageState ∨
    address ≠ pageState.cursorState.address ∧ pageMemMoveToPage pageState address =
      { pageState with
        cursorState := { pageState.cursorState with address := address, offset := 0 }
        needsRedraw := true } := by
  rw [pageMemMoveToPage]
  split_ifs with h
  · exact Or.inr ⟨h.1, rfl⟩
  · exact Or.inl rfl

theorem moveCursorByKey_eq {delta : NxIntn}
    (h : moveCursorByKey delta pageState a w = (some (status, pageState'), w')) :
    status = .success ∧ pageState' =
      { pageState with
        cursorState := pageCoreMoveCursor pageState.cursorState delta
        needsRedraw := pageState'.needsRedraw } := by
  rw [moveCursorByKey] at h
  dsimp only at h
  by_cases hmoved : (pageCoreMoveCursor pageState.cursorState delta).offset ≠
      pageState.cursorState.offset
  · rw [if_pos hmoved] at h
    obtain ⟨_, w₁, -, h⟩ := Prog.bind_eq_some.1 h
    obtain ⟨_, w₂, -, h⟩ := Prog.bind_eq_some.1 h
    obtain ⟨_, w₃, -, h⟩ := Prog.bind_eq_some.1 h
    obtain ⟨h, -⟩ := Prog.pure_eq_some.1 h
    cases h; exact ⟨rfl, rfl⟩
  · rw [if_neg hmoved] at h
    obtain ⟨h, -⟩ := Prog.pure_eq_some.1 h
    cases h; exact ⟨rfl, rfl⟩

/-- A page command that stays on the page leaves the page state alone. -/
theorem pageMemMoveToPage_stays {address : NxU64}
    (h : (pageMemMoveToPage s address).cursorState.address = s.cursorState.address) :
    pageMemMoveToPage s address = s := by
  obtain hmove | ⟨hne, hmove⟩ := pageMemMoveToPage_cases s address
  · exact hmove
  · rw [hmove] at h
    exact absurd h hne

theorem IsCommand.handleKeyPress {c : Command} (h : IsCommand key s.cursorState.width c) :
    pageMemControllerHandleKeyPress key s a = handleCommand key.unicodeChar s a := by
  rw [pageMemControllerHandleKeyPress, if_neg h.not_esc]
  exact if_neg (not_not.2 h.not_arrow)

/-- The type lookup follows a command that has changed the page. -/
theorem updateMovedPage_moves {old : NxU64} (h : s.cursorState.address ≠ old) :
    updateMovedPage old .success s a = pageMemControllerUpdatePageType s a :=
  if_pos ⟨rfl, h⟩

theorem updateMovedPage_stays {old : NxU64} (h : status ≠ .success ∨ s.cursorState.address = old) :
    updateMovedPage old status s a = pure (status, s) := by
  refine if_neg fun hmoved => ?_
  rcases h with hfail | hsame
  · exact hfail hmoved.1
  · exact hmoved.2 hsame

/-- A key that moves to another page ends with the type lookup. -/
theorem MovesPage.handleKeyPress {s₁ : PageMemPageState} {w₁ : W} (h : MovesPage a w key s s₁ w₁) :
    pageMemControllerHandleKeyPress key s a w = pageMemControllerUpdatePageType s₁ a w₁ := by
  cases h with
  | goto h hprompt hclear hmoved =>
    rw [h.handleKeyPress, handleCommand, h.command]
    dsimp only
    rw [Prog.bind_of_some (show pageMemActionGotoAddress (pageCoreTransitionState s .goto) a w = _
      from (Prog.bind_of_some hprompt).trans (Prog.bind_of_some hclear))]
    exact congrFun (updateMovedPage_moves hmoved) _
  | pageDown h hmoved =>
    rw [h.handleKeyPress, handleCommand, h.command]
    exact congrFun (updateMovedPage_moves hmoved) _
  | pageUp h hmoved =>
    rw [h.handleKeyPress, handleCommand, h.command]
    exact congrFun (updateMovedPage_moves hmoved) _

/-- A page command that changes the address moves to the page. -/
theorem pageMemMoveToPage_moves {address : NxU64}
    (h : (pageMemMoveToPage s address).cursorState.address ≠ s.cursorState.address) :
    pageMemMoveToPage s address =
      { s with
        cursorState := { s.cursorState with address := address, offset := 0 }
        needsRedraw := true } := by
  obtain hmove | ⟨-, hmove⟩ := pageMemMoveToPage_cases s address
  · exact absurd (congrArg (fun s => s.cursorState.address) hmove) h
  · exact hmove

/-- What the action of a page move leaves: another address, a redraw that is due,
    and the rest of the state. -/
theorem MovesPage.state {s₁ : PageMemPageState} {w₁ : W} (h : MovesPage a w key s s₁ w₁) :
    s₁.cursorState.address ≠ s.cursorState.address ∧ s₁.needsRedraw = true ∧
      s₁.addressMap = s.addressMap := by
  cases h with
  | goto _ _ _ hmoved => exact ⟨hmoved, rfl, rfl⟩
  | pageDown _ hmoved =>
    rw [pageMemActionPageDown, pageMemMoveToPage_moves hmoved]
    refine ⟨fun heq => hmoved ?_, rfl, rfl⟩
    rw [pageMemActionPageDown, pageMemMoveToPage_moves hmoved]
    exact heq
  | pageUp _ hmoved =>
    rw [pageMemActionPageUp, pageMemMoveToPage_moves hmoved]
    refine ⟨fun heq => hmoved ?_, rfl, rfl⟩
    rw [pageMemActionPageUp, pageMemMoveToPage_moves hmoved]
    exact heq

/-- The mode a page move leaves. -/
theorem MovesPage.mode {s₁ : PageMemPageState} {w₁ : W} (h : MovesPage a w key s s₁ w₁) :
    s₁.currentState = .viewing ∨ s₁.currentState = s.currentState := by
  cases h with
  | goto => exact Or.inl rfl
  | pageDown _ hmoved =>
    rw [pageMemActionPageDown, pageMemMoveToPage_moves hmoved]
    exact Or.inr rfl
  | pageUp _ hmoved =>
    rw [pageMemActionPageUp, pageMemMoveToPage_moves hmoved]
    exact Or.inr rfl

/-- How a goto ends. -/
theorem gotoAddress_run (h : pageMemActionGotoAddress s a w = (some (status, s'), w')) :
    ∃ committed address w₁, gotoPrompt a.tui w = (some (committed, address), w₁) ∧
      clearGotoPrompt a.tui w₁ = (some (), w') ∧
      (committed = false ∧ status = .aborted ∧ s' = s ∨
        committed = true ∧ status = .success ∧ s' = gotoState s address) := by
  obtain ⟨⟨committed, address⟩, w₁, hprompt, h⟩ := Prog.bind_eq_some.1 h
  cases committed with
  | false =>
    obtain ⟨_, w₂, hclear, h⟩ := Prog.bind_eq_some.1 h
    obtain ⟨h, rfl⟩ := Prog.pure_eq_some.1 h
    cases h
    exact ⟨false, address, w₁, hprompt, hclear, Or.inl ⟨rfl, rfl, rfl⟩⟩
  | true =>
    obtain ⟨_, w₂, hclear, h⟩ := Prog.bind_eq_some.1 h
    obtain ⟨h, rfl⟩ := Prog.pure_eq_some.1 h
    cases h
    exact ⟨true, address, w₁, hprompt, hclear, Or.inr ⟨rfl, rfl, rfl⟩⟩

/-- How the goto command ends, after its action. -/
theorem gotoCommand_run {s₁ : PageMemPageState} {w₁ : W} {status₁ : NxStatus}
    (hkey : IsCommand key s.cursorState.width .goto)
    (hgoto : pageMemActionGotoAddress (pageCoreTransitionState s .goto) a w =
      (some (status₁, s₁), w₁))
    (h : updateMovedPage s.cursorState.address status₁ (pageCoreTransitionState s₁ .viewing) a w₁ =
      (some (status, s'), w')) : KeyRun a key s w status s' w' := by
  obtain ⟨committed, address, w₂, hprompt, hclear, ⟨rfl, rfl, rfl⟩ | ⟨rfl, rfl, rfl⟩⟩ :=
    gotoAddress_run hgoto
  · rw [updateMovedPage_stays (Or.inl (by decide))] at h
    obtain ⟨h, rfl⟩ := Prog.pure_eq_some.1 h
    cases h
    exact .cancelled hkey hprompt hclear
  · by_cases hmoved : pageCoreAlignToPage address pageSize = s.cursorState.address
    · rw [updateMovedPage_stays (Or.inr hmoved)] at h
      obtain ⟨h, rfl⟩ := Prog.pure_eq_some.1 h
      cases h
      exact .goto hkey hprompt hclear hmoved
    · rw [updateMovedPage_moves hmoved] at h
      exact .moves (.goto hkey hprompt hclear hmoved) h

/-- How a page command ends. -/
theorem pageCommand_run {c : Command} {address : NxU64} (hkey : IsCommand key s.cursorState.width c)
    (hc : c = .pageDown ∨ c = .pageUp)
    (hmoves : (pageMemMoveToPage s address).cursorState.address ≠ s.cursorState.address →
      MovesPage a w key s (pageMemMoveToPage s address) w)
    (h : updateMovedPage s.cursorState.address .success (pageMemMoveToPage s address) a w =
      (some (status, s'), w')) : KeyRun a key s w status s' w' := by
  by_cases hmoved : (pageMemMoveToPage s address).cursorState.address = s.cursorState.address
  · rw [updateMovedPage_stays (Or.inr hmoved), pageMemMoveToPage_stays hmoved] at h
    obtain ⟨h, rfl⟩ := Prog.pure_eq_some.1 h
    cases h
    exact .page hkey hc
  · rw [updateMovedPage_moves hmoved] at h
    exact .moves (hmoves hmoved) h

/-- **How a key ends.** -/
theorem handleKeyPress_run
    (h : pageMemControllerHandleKeyPress key s a w = (some (status, s'), w')) :
    KeyRun a key s w status s' w' := by
  rw [pageMemControllerHandleKeyPress] at h
  dsimp only at h
  by_cases hesc : key.scanCode = nxUiScanEsc
  · rw [if_pos hesc] at h
    obtain ⟨h, rfl⟩ := Prog.pure_eq_some.1 h
    cases h
    exact .esc hesc
  rw [if_neg hesc] at h
  by_cases hdelta : keyDelta key s.cursorState.width = 0
  swap
  · rw [if_pos hdelta] at h
    obtain ⟨rfl, -⟩ := moveCursorByKey_eq h
    exact .arrow hesc hdelta h
  rw [if_neg (not_not.2 hdelta), handleCommand] at h
  rcases hcmd : command key.unicodeChar with _ | c
  · rw [hcmd] at h
    obtain ⟨h, rfl⟩ := Prog.pure_eq_some.1 h
    cases h
    exact .unknown hcmd
  rw [hcmd] at h
  have hkey : IsCommand key s.cursorState.width c := ⟨hesc, hdelta, hcmd⟩
  cases c with
  | edit =>
    obtain ⟨status₁, w₁, hedit, h⟩ := Prog.bind_eq_some.1 h
    obtain ⟨h, rfl⟩ := Prog.pure_eq_some.1 h
    cases h
    exact .edit hkey hedit
  | goto =>
    obtain ⟨⟨status₁, s₁⟩, w₁, hgoto, h⟩ := Prog.bind_eq_some.1 h
    exact gotoCommand_run hkey hgoto h
  | pageDown => exact pageCommand_run hkey (Or.inl rfl) (fun hmoved => .pageDown hkey hmoved) h
  | pageUp => exact pageCommand_run hkey (Or.inr rfl) (fun hmoved => .pageUp hkey hmoved) h
  | ranges =>
    obtain ⟨_, w₁, hdump, h⟩ := Prog.bind_eq_some.1 h
    obtain ⟨h, rfl⟩ := Prog.pure_eq_some.1 h
    cases h
    exact .ranges hkey hdump
  | width width =>
    obtain ⟨h, rfl⟩ := Prog.pure_eq_some.1 h
    cases h
    exact .width hkey

end UefiNexus
