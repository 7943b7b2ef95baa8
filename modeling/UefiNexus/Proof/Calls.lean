/-
  The calls of the PageMem programs.

  A property of programs that is closed under composition passes from the calls
  of the adapters to the programs that make them.  All that the view, goto, the
  page commands and the type lookup call is `Quiet`; an edit in addition writes,
  at the cursor, or reports that the cursor is not on a cell.
-/
import Mathlib.Tactic.SplitIfs
import UefiNexus.PageMem.Controller

namespace UefiNexus

variable {W : Type} {S : AdapterCall → Prop} {Φ : ∀ {α : Type}, Prog W α → Prop}
  {a : AdapterManager W}

/-- The calls of the view around the cells. -/
def AdapterCall.Plain : AdapterCall → Prop
  | memRead _ _ => True
  | clearScreen => True
  | setAttribute attr => attr = pageMemAttrNormal
  | setCursorPosition _ _ => True
  | outputString _ => True
  | outputStringAt _ _ _ => True
  | getScreenDimensions => True
  | _ => False

/-- The calls of a preview. -/
def AdapterCall.Reads : AdapterCall → Prop
  | memRead _ _ => True
  | _ => False

/-- The calls of a line of the view. -/
def AdapterCall.Line (c : AdapterCall) : Prop := c.Plain ∧ c ≠ .clearScreen

/-- The calls of the cells, of the prompts and of the other keys that do not
    concern the page. -/
def AdapterCall.Silent : AdapterCall → Prop
  | memRead _ _ => True
  | setAttribute _ => True
  | setCursorPosition _ _ => True
  | outputString _ => True
  | outputStringAt _ _ _ => True
  | getScreenDimensions => True
  | readKey => True
  | readHex _ => True
  | dumpValidRanges => True
  | _ => False

/-- The calls of a redraw. -/
def AdapterCall.Drawn (c : AdapterCall) : Prop := c.Silent ∨ c = .clearScreen

/-- All calls but the initialization, the writes, and the report of a cursor
    that is not on a cell. -/
def AdapterCall.Quiet : AdapterCall → Prop
  | init => False
  | memWrite _ _ _ => False
  | reportError message _ => message ≠ offsetNotAligned
  | _ => True

theorem AdapterCall.Quiet.reportError {message : List NxUiChar} (status : NxStatus)
    (h : message ≠ offsetNotAligned) : (AdapterCall.reportError message status).Quiet := h

theorem AdapterCall.Line.silent {c : AdapterCall} (h : c.Line) : c.Silent := by
  obtain ⟨h, hne⟩ := h
  cases c with
  | clearScreen => exact absurd rfl hne
  | _ => trivial

theorem AdapterCall.Silent.quiet {c : AdapterCall} (h : c.Silent) : c.Quiet := by
  cases c <;> trivial

theorem AdapterCall.Drawn.quiet {c : AdapterCall} (h : c.Drawn) : c.Quiet := by
  obtain h | rfl := h
  · exact h.quiet
  · trivial

namespace AdapterManager.Serves

theorem mono {S' : AdapterCall → Prop} (h : ∀ c, S' c → S c) (ha : a.Serves S Φ) :
    a.Serves S' Φ where
  closed := ha.closed
  hang := ha.hang
  init hc := ha.init (h _ hc)
  memRead ad w hc := ha.memRead ad w (h _ hc)
  memWrite ad w v hc := ha.memWrite ad w v (h _ hc)
  getMemoryMapDescriptors hc := ha.getMemoryMapDescriptors (h _ hc)
  getMemoryTypeAtAddress f hf ad old hc := ha.getMemoryTypeAtAddress f hf ad old (h _ hc)
  queryAccess f hf ad l old hc := ha.queryAccess f hf ad l old (h _ hc)
  dumpValidRanges hc := ha.dumpValidRanges (h _ hc)
  clearScreen hc := ha.clearScreen (h _ hc)
  setAttribute n hc := ha.setAttribute n (h _ hc)
  setCursorPosition c r hc := ha.setCursorPosition c r (h _ hc)
  outputString s hc := ha.outputString s (h _ hc)
  outputStringAt c r s hc := ha.outputStringAt c r s (h _ hc)
  readKey hc := ha.readKey (h _ hc)
  readHex n hc := ha.readHex n (h _ hc)
  getScreenDimensions hc := ha.getScreenDimensions (h _ hc)
  reportError m s hc := ha.reportError m s (h _ hc)

/-! ## The view -/

theorem lines (ha : a.Serves AdapterCall.Plain Φ) : a.Serves AdapterCall.Line Φ :=
  ha.mono fun _ h => h.1

section
variable (ha : a.Serves AdapterCall.Reads Φ) (pageState : PageMemPageState)
include ha

theorem asciiPreviewChar (offset : NxUintn) (index : ℕ) :
    Φ (asciiPreviewChar a.memory pageState offset index) := by
  have hchar : ∀ r : NxStatus × NxU64, Φ (if ¬ nxUiError r.1 = true ∧
      r.2.setWidth 8 ≥ (32 : NxU8) ∧ r.2.setWidth 8 ≤ (126 : NxU8)
      then pure ((r.2.setWidth 8).setWidth 16) else pure (L '.')) := by
    intro r
    split_ifs
    · exact ha.closed.ret _
    · exact ha.closed.ret _
  rw [UefiNexus.asciiPreviewChar]
  dsimp only
  split_ifs
  · exact ha.closed.seq (ha.memRead _ _ trivial) hchar
  · exact ha.closed.seq (ha.closed.ret _) hchar

theorem asciiPreviewFrom (offset : NxUintn) :
    ∀ n index, Φ (asciiPreviewFrom a.memory pageState offset n index)
  | 0, _ => ha.closed.ret _
  | n + 1, index =>
    ha.closed.seq (ha.asciiPreviewChar pageState offset index) fun _ =>
      ha.closed.seq (asciiPreviewFrom offset n (index + 1)) fun _ => ha.closed.ret _

end

section
variable (ha : a.Serves AdapterCall.Line Φ) (pageState : PageMemPageState)
include ha

theorem reads : a.Serves AdapterCall.Reads Φ := ha.mono fun c h => by
  cases c with
  | memRead => exact ⟨trivial, nofun⟩
  | _ => exact h.elim

theorem getDimensions : Φ a.tui.getScreenDimensions := ha.getScreenDimensions ⟨trivial, nofun⟩

theorem stringAt (column row : NxUintn) (string : List NxUiChar) :
    Φ (a.tui.outputStringAt column row string) :=
  ha.outputStringAt _ _ _ ⟨trivial, nofun⟩

theorem clearRow (row : NxUintn) : Φ (clearRow a.tui row) :=
  ha.closed.seq ha.getDimensions fun _ => ha.stringAt _ _ _

theorem pageMemViewUpdateInfo : Φ (pageMemViewUpdateInfo a.tui pageState) :=
  ha.closed.seq (ha.clearRow _) fun _ => ha.stringAt _ _ _

/-- A cell is its attribute, and plain calls. -/
theorem drawCell_eq (offset : NxUintn) (highlight : NxBool) :
    ∃ rest, drawCell a.tui a.memory pageState offset highlight =
        (a.tui.setAttribute (if highlight then pageMemAttrHighlight else pageMemAttrNormal) >>=
          fun _ => rest) ∧ Φ rest := by
  have hshow : ∀ column row string, Φ (do
      a.tui.outputStringAt column row string
      a.tui.setAttribute pageMemAttrNormal) := fun _ _ _ =>
    ha.closed.seq (ha.stringAt _ _ _) fun _ => ha.setAttribute _ ⟨rfl, nofun⟩
  refine ⟨_, rfl, ?_⟩
  dsimp only
  split_ifs
  · exact ha.closed.seq (ha.memRead _ _ ⟨trivial, nofun⟩) fun _ => hshow _ _ _
  · exact ha.closed.seq (ha.closed.ret _) fun _ => hshow _ _ _

/-- A step of the rows is plain calls, and a cell. -/
theorem drawMemoryStep_eq (offset : NxUintn) :
    ∃ first : Prog W Unit, UefiNexus.drawMemoryStep a.tui a.memory pageState offset =
        (first >>= fun _ => UefiNexus.pageMemViewUpdateCell a.tui a.memory pageState offset
          (offset = pageState.cursorState.offset)) ∧ Φ first := by
  by_cases hrow : offset % cols = 0
  · refine ⟨do
      renderRowPrefix a.tui offset (pageMemDataRow + offset / cols)
      renderAsciiPreview a.tui a.memory pageState offset (pageMemDataRow + offset / cols), ?_, ?_⟩
    · rw [UefiNexus.drawMemoryStep, if_pos hrow, Prog.seq_assoc]
    · exact ha.closed.seq (ha.stringAt _ _ _) fun _ =>
        ha.closed.seq (ha.reads.asciiPreviewFrom pageState _ _ _) fun _ => ha.stringAt _ _ _
  · refine ⟨pure (), ?_, ha.closed.ret _⟩
    rw [UefiNexus.drawMemoryStep, if_neg hrow]
    rfl

theorem drawMemoryHeaderFrom (width : NxUintn) :
    ∀ n offset, Φ (drawMemoryHeaderFrom a.tui width n offset)
  | 0, offset => by
    rw [UefiNexus.drawMemoryHeaderFrom]
    split_ifs
    · exact ha.hang
    · exact ha.closed.ret _
  | n + 1, offset => by
    rw [UefiNexus.drawMemoryHeaderFrom]
    split_ifs
    · exact ha.closed.seq (ha.outputString _ ⟨trivial, nofun⟩) fun _ => drawMemoryHeaderFrom width n _
    · exact ha.closed.ret _

theorem drawMemoryHeader : Φ (drawMemoryHeader a.tui pageState) :=
  ha.closed.seq (ha.setAttribute _ ⟨rfl, nofun⟩) fun _ =>
    ha.closed.seq (ha.setCursorPosition _ _ ⟨trivial, nofun⟩) fun _ => ha.drawMemoryHeaderFrom _ _ _

theorem drawPageHelp : Φ (drawPageHelp a.tui) :=
  ha.closed.seq (ha.clearRow _) fun _ => ha.closed.seq (ha.clearRow _) fun _ =>
    ha.closed.seq (ha.stringAt _ _ _) fun _ => ha.stringAt _ _ _

/-- The frame clears the screen; the rest is lines. -/
theorem drawPageFrame_eq :
    ∃ rest : Prog W Unit, UefiNexus.drawPageFrame a.tui pageState =
        (a.tui.clearScreen >>= fun _ => rest) ∧ Φ rest :=
  ⟨_, rfl, ha.closed.seq (ha.stringAt _ _ _) fun _ => ha.stringAt _ _ _⟩

theorem drawPageFrame (hclear : Φ a.tui.clearScreen) : Φ (drawPageFrame a.tui pageState) := by
  obtain ⟨rest, heq, hrest⟩ := ha.drawPageFrame_eq pageState
  rw [heq]
  exact ha.closed.seq hclear fun _ => hrest

end

section
variable (ha : a.Serves AdapterCall.Silent Φ) (pageState : PageMemPageState)
include ha

theorem line : a.Serves AdapterCall.Line Φ := ha.mono fun _ h => h.silent

theorem pageMemViewUpdateCell (offset : NxUintn) (highlight : NxBool) :
    Φ (pageMemViewUpdateCell a.tui a.memory pageState offset highlight) := by
  obtain ⟨rest, heq, hrest⟩ := ha.line.drawCell_eq pageState offset highlight
  rw [UefiNexus.pageMemViewUpdateCell, heq]
  exact ha.closed.seq (ha.setAttribute _ trivial) fun _ => hrest

theorem drawMemoryRowsFrom :
    ∀ n offset, Φ (drawMemoryRowsFrom a.tui a.memory pageState n offset)
  | 0, offset => by
    rw [UefiNexus.drawMemoryRowsFrom]
    split_ifs
    · exact ha.hang
    · exact ha.closed.ret _
  | n + 1, offset => by
    obtain ⟨first, heq, hfirst⟩ := ha.line.drawMemoryStep_eq pageState offset
    rw [UefiNexus.drawMemoryRowsFrom]
    split_ifs
    · rw [heq]
      exact ha.closed.seq (ha.closed.seq hfirst fun _ => ha.pageMemViewUpdateCell pageState _ _)
        fun _ => drawMemoryRowsFrom n _
    · exact ha.closed.ret _

/-! ## The keys -/

theorem clearGotoPrompt : Φ (clearGotoPrompt a.tui) :=
  ha.closed.seq (ha.getScreenDimensions trivial) fun _ =>
    ha.closed.seq (ha.outputStringAt _ _ _ trivial) fun _ => ha.outputStringAt _ _ _ trivial

theorem gotoPrompt : Φ (gotoPrompt a.tui) :=
  ha.closed.seq (ha.outputStringAt _ _ _ trivial) fun _ => ha.readHex _ trivial

theorem pageMemActionGotoAddress : Φ (pageMemActionGotoAddress pageState a) := by
  refine ha.closed.seq ha.gotoPrompt fun r => ?_
  obtain ⟨committed, address⟩ := r
  dsimp only
  split_ifs
  · exact ha.closed.seq ha.clearGotoPrompt fun _ => ha.closed.ret _
  · exact ha.closed.seq ha.clearGotoPrompt fun _ => ha.closed.ret _

theorem moveCursorByKey (delta : NxIntn) : Φ (moveCursorByKey delta pageState a) := by
  rw [UefiNexus.moveCursorByKey]
  dsimp only
  split_ifs
  · exact ha.closed.seq (ha.pageMemViewUpdateCell _ _ _) fun _ =>
      ha.closed.seq (ha.pageMemViewUpdateCell _ _ _) fun _ =>
        ha.closed.seq (ha.line.pageMemViewUpdateInfo _) fun _ => ha.closed.ret _
  · exact ha.closed.ret _

theorem clearStatusLine : Φ (clearStatusLine a.tui) :=
  ha.closed.seq (ha.getScreenDimensions trivial) fun _ => ha.outputStringAt _ _ _ trivial

end

/-- A redraw clears the screen; the rest is silent. -/
theorem pageMemViewDrawPage_eq (ha : a.Serves AdapterCall.Silent Φ) (pageState : PageMemPageState) :
    ∃ rest : Prog W Unit, UefiNexus.pageMemViewDrawPage a.tui a.memory pageState =
        (a.tui.clearScreen >>= fun _ => rest) ∧ Φ rest := by
  obtain ⟨frame, heq, hframe⟩ := ha.line.drawPageFrame_eq pageState
  refine ⟨do
    frame
    UefiNexus.drawMemoryHeader a.tui pageState
    UefiNexus.drawMemoryRows a.tui a.memory pageState
    UefiNexus.drawPageHelp a.tui
    UefiNexus.pageMemViewUpdateInfo a.tui pageState, ?_, ?_⟩
  · rw [UefiNexus.pageMemViewDrawPage, heq, Prog.seq_assoc]
  · exact ha.closed.seq hframe fun _ => ha.closed.seq (ha.line.drawMemoryHeader pageState) fun _ =>
      ha.closed.seq (ha.drawMemoryRowsFrom pageState _ _) fun _ =>
        ha.closed.seq ha.line.drawPageHelp fun _ => ha.line.pageMemViewUpdateInfo pageState

section
variable (ha : a.Serves AdapterCall.Drawn Φ) (pageState : PageMemPageState)
include ha

theorem pageMemViewDrawPage : Φ (pageMemViewDrawPage a.tui a.memory pageState) := by
  have hs : a.Serves AdapterCall.Silent Φ := ha.mono fun _ h => Or.inl h
  obtain ⟨rest, heq, hrest⟩ := hs.pageMemViewDrawPage_eq pageState
  rw [heq]
  exact ha.closed.seq (ha.clearScreen (Or.inr rfl)) fun _ => hrest

theorem redrawIfNeeded : Φ (redrawIfNeeded a pageState) := by
  rw [UefiNexus.redrawIfNeeded]
  split_ifs
  · exact ha.closed.seq (ha.pageMemViewDrawPage pageState) fun _ => ha.closed.ret _
  · exact ha.closed.ret _

end

section
variable (ha : a.Serves AdapterCall.Quiet Φ) (pageState : PageMemPageState)
include ha

theorem silent : a.Serves AdapterCall.Silent Φ := ha.mono fun _ h => h.quiet

theorem drawn : a.Serves AdapterCall.Drawn Φ := ha.mono fun _ h => h.quiet

theorem pageMemControllerUpdatePageType : Φ (pageMemControllerUpdatePageType pageState a) := by
  rw [UefiNexus.pageMemControllerUpdatePageType]
  rcases hf : a.memory.getMemoryTypeAtAddress with _ | f
  · exact ha.closed.seq (ha.reportError _ _ (.reportError _ (by decide)))
      fun _ => ha.closed.ret _
  refine ha.closed.seq (ha.getMemoryTypeAtAddress f hf _ _ trivial) fun r => ?_
  obtain ⟨status, type, found⟩ := r
  dsimp only
  split_ifs
  · exact ha.closed.seq (ha.reportError _ _ (.reportError _ (by decide)))
      fun _ => ha.closed.ret _
  rcases hq : a.memory.queryAccess with _ | g
  · exact ha.closed.ret _
  · exact ha.closed.seq (ha.queryAccess g hq _ _ _ trivial) fun _ => ha.closed.ret _

theorem updateMovedPage (old : NxU64) (status : NxStatus) :
    Φ (updateMovedPage old status pageState a) := by
  rw [UefiNexus.updateMovedPage]
  split_ifs
  · exact ha.pageMemControllerUpdatePageType pageState
  · exact ha.closed.ret _

/-- The commands other than an edit. -/
theorem handleCommand (unicodeChar : NxUiChar) (hc : command unicodeChar ≠ some .edit) :
    Φ (handleCommand unicodeChar pageState a) := by
  rw [UefiNexus.handleCommand]
  rcases hcmd : command unicodeChar with _ | c
  · exact ha.closed.ret _
  cases c with
  | edit => exact absurd hcmd hc
  | goto =>
    exact ha.closed.seq (ha.silent.pageMemActionGotoAddress _) fun _ => ha.updateMovedPage _ _ _
  | pageDown => exact ha.updateMovedPage _ _ _
  | pageUp => exact ha.updateMovedPage _ _ _
  | ranges => exact ha.closed.seq (ha.dumpValidRanges trivial) fun _ => ha.closed.ret _
  | width width => exact ha.closed.ret _

end

section
variable (pageState : PageMemPageState) (ha : a.Serves S Φ)
  (hS : ∀ c, AdapterCall.Silent c → S c)
  (hreports : ∀ message status, message ≠ offsetNotAligned → S (.reportError message status))
  (hwrite : ∀ value,
    S (.memWrite (pageCoreGetCurrentAddress pageState.cursorState) pageState.cursorState.width value))
  (hoff : pageState.cursorState.offset % pageState.cursorState.width ≠ 0 →
    S (.reportError offsetNotAligned .invalidParameter))
include ha hS hreports hwrite hoff

/-- An edit: silent calls, reports and a write at the cursor. -/
theorem pageMemActionEditValue : Φ (pageMemActionEditValue pageState a) := by
  have hq := ha.mono hS
  have hreport : ∀ message status, message ≠ offsetNotAligned → ∀ r : NxStatus,
      Φ (do a.error.reportError message status; pure r) := fun m s hm _ =>
    ha.closed.seq (ha.reportError m s (hreports m s hm)) fun _ => ha.closed.ret _
  rw [UefiNexus.pageMemActionEditValue]
  dsimp only
  by_cases hwidth : pageState.cursorState.width = 0 ∨ pageState.cursorState.width ≠ 1 ∧
      pageState.cursorState.width ≠ 2 ∧ pageState.cursorState.width ≠ 4 ∧
      pageState.cursorState.width ≠ 8
  · rw [if_pos hwidth]
    exact hreport _ _ (by decide) _
  rw [if_neg hwidth]
  by_cases halign : pageState.cursorState.offset % pageState.cursorState.width ≠ 0
  · rw [if_pos halign]
    exact ha.closed.seq (ha.reportError _ _ (hoff halign)) fun _ => ha.closed.ret _
  rw [if_neg halign]
  by_cases hvalid : ¬ pageCoreIsRangeValid pageState.addressMap
      (pageCoreGetCurrentAddress pageState.cursorState) pageState.cursorState.width = true
  · rw [if_pos hvalid]
    exact hreport _ _ (by decide) _
  rw [if_neg hvalid]
  refine ha.closed.seq hq.clearStatusLine fun _ =>
    ha.closed.seq (hq.outputStringAt _ _ _ trivial) fun _ =>
      ha.closed.seq (hq.readHex _ trivial) fun r => ?_
  obtain ⟨committed, newValue⟩ := r
  dsimp only
  split_ifs
  · exact ha.memWrite _ _ _ (hwrite _)
  · exact hreport _ _ (by decide) _
  · exact ha.closed.ret _

end

section
variable (pageState : PageMemPageState) (ha : a.Serves S Φ) (hS : ∀ c, AdapterCall.Quiet c → S c)
  (hwrite : ∀ value,
    S (.memWrite (pageCoreGetCurrentAddress pageState.cursorState) pageState.cursorState.width value))
  (hoff : pageState.cursorState.offset % pageState.cursorState.width ≠ 0 →
    S (.reportError offsetNotAligned .invalidParameter))
include ha hS hwrite hoff

/-- Any key. -/
theorem pageMemControllerHandleKeyPress (key : NxUiKey) :
    Φ (pageMemControllerHandleKeyPress key pageState a) := by
  have hq := ha.mono hS
  rw [UefiNexus.pageMemControllerHandleKeyPress]
  dsimp only
  split_ifs
  · exact ha.closed.ret _
  · exact hq.silent.moveCursorByKey pageState _
  by_cases hedit : command key.unicodeChar = some .edit
  · rw [UefiNexus.handleCommand, hedit]
    refine ha.closed.seq ?_ fun _ => ha.closed.ret _
    exact ha.pageMemActionEditValue (pageCoreTransitionState pageState .editing)
      (fun c hc => hS c hc.quiet) (fun m st hm => hS _ (.reportError st hm)) hwrite hoff
  · exact hq.handleCommand pageState _ hedit

theorem serveKey : Φ (serveKey a pageState) := by
  have hq := ha.mono hS
  refine ha.closed.seq (hq.readKey trivial) fun key =>
    ha.closed.seq (ha.pageMemControllerHandleKeyPress pageState hS hwrite hoff key) fun r => ?_
  obtain ⟨status, pageState'⟩ := r
  dsimp only
  split_ifs
  · exact ha.closed.ret _
  · exact ha.closed.seq (hq.reportError _ _ (.reportError _ (by decide))) fun _ => ha.closed.ret _
  · exact ha.closed.ret _

end

/-! ## The run -/

/-- What `PageMemControllerInit` does after the initialization of the memory
    adapter. -/
theorem pageMemControllerInit_rest (ha : a.Serves S Φ) (hS : ∀ c, AdapterCall.Quiet c → S c)
    (pageState : PageMemPageState) :
    ∃ rest, pageMemControllerInit pageState a = a.memory.init >>= rest ∧
      ∀ status, Φ (rest status) := by
  have hq := ha.mono hS
  refine ⟨_, rfl, fun status => ?_⟩
  split_ifs
  · exact ha.closed.seq (hq.reportError _ _ (.reportError _ (by decide))) fun _ => ha.closed.ret _
  refine ha.closed.seq (hq.getMemoryMapDescriptors trivial) fun descriptors => ?_
  dsimp only
  split_ifs
  · exact ha.closed.ret _
  · exact ha.closed.ret _
  · exact hq.pageMemControllerUpdatePageType _

theorem pageMemControllerInit (ha : a.Serves S Φ) (hS : ∀ c, AdapterCall.Quiet c → S c)
    (hinit : S .init) (pageState : PageMemPageState) : Φ (pageMemControllerInit pageState a) := by
  obtain ⟨rest, heq, hrest⟩ := ha.pageMemControllerInit_rest hS pageState
  rw [heq]
  exact ha.closed.seq (ha.init hinit) hrest

/-- **What a run does after the initialization of the memory adapter** has every
    property all other calls have. -/
theorem pageMemControllerRun_rest (ha : a.Serves (· ≠ .init) Φ) (pageState : PageMemPageState)
    (fuel : ℕ) :
    ∃ rest, pageMemControllerRun a pageState fuel = a.memory.init >>= rest ∧
      ∀ status, Φ (rest status) := by
  have hS : ∀ c, AdapterCall.Quiet c → c ≠ .init := by
    rintro c hc rfl; exact hc
  obtain ⟨rest, heq, hrest⟩ := ha.pageMemControllerInit_rest hS pageState
  refine ⟨fun status => rest status >>= fun r =>
    if nxUiError r.1 then pure r.1
    else Prog.loop (UefiNexus.redrawIfNeeded a) (UefiNexus.serveKey a) fuel r.2, ?_,
    fun status => ha.closed.seq (hrest status) fun r => ?_⟩
  · rw [UefiNexus.pageMemControllerRun, heq, Prog.seq_assoc]
  · split_ifs
    · exact ha.closed.ret _
    · exact Prog.loop_closed ha.closed ha.hang (fun s => (ha.mono hS).drawn.redrawIfNeeded s)
        (fun s => ha.serveKey s hS (by simp) (by simp)) fuel r.2

/-- **A run** has every property all calls have. -/
theorem pageMemControllerRun (ha : a.Serves (fun _ => True) Φ) (pageState : PageMemPageState)
    (fuel : ℕ) : Φ (pageMemControllerRun a pageState fuel) := by
  have hinit := ha.init trivial
  obtain ⟨rest, heq, hrest⟩ :=
    (ha.mono fun _ _ => trivial).pageMemControllerRun_rest pageState fuel
  rw [heq]
  exact ha.closed.seq hinit hrest

end AdapterManager.Serves

/-! ## Recorded calls -/

instance isPreorder_true : IsPreorder W fun _ _ => True where
  refl _ := trivial
  trans _ _ _ _ _ := trivial

theorem AdapterManager.serves_any (a : AdapterManager W) (S : AdapterCall → Prop) :
    a.Serves S (Prog.Sat fun _ _ => True) := by
  constructor
  · exact Prog.Sat.closed
  all_goals intros; exact fun _ => trivial

/-- The calls recorded since `p` have the property `P`. -/
def Extends (P : AdapterCall → Prop) (p p' : W × List AdapterCall) : Prop :=
  ∃ calls, p'.2 = p.2 ++ calls ∧ ∀ c ∈ calls, P c

instance (P : AdapterCall → Prop) : IsPreorder (W × List AdapterCall) (Extends P) where
  refl p := ⟨[], (List.append_nil p.2).symm, nofun⟩
  trans p p' p'' := by
    rintro ⟨calls, h, hP⟩ ⟨calls', h', hP'⟩
    refine ⟨calls ++ calls', by rw [h', h, List.append_assoc], fun c hc => ?_⟩
    exact (List.mem_append.1 hc).elim (hP c) (hP' c)

theorem traced_extends (a : AdapterManager W) (P : AdapterCall → Prop) :
    (traced a).Serves P (Prog.Sat (Extends P)) := by
  refine (a.serves_true P).traced Prog.Sat.closed Prog.Sat.hang fun c m hc _ p => ?_
  exact ⟨[c], rfl, fun c' hc' => List.mem_singleton.1 hc' ▸ hc⟩

end UefiNexus
