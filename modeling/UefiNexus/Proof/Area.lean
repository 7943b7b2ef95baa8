/-
  Drawing is well defined, and stays in its areas.

  * `Drawable s`: the width is supported, the cursor is on the page, and the page
    is a block;
  * the page states a run draws (`DrawnState`) and those in which it awaits a key
    are drawable (`drawn_drawable`, `runVisits_drawable`), since every key keeps
    that;
  * of a drawable state, the loops end, nothing is divided by zero, no address
    wraps around, and the cells lie in the grid, apart from each other and from
    everything else (`Drawable.draws`).
-/
import UefiNexus.Proof.Navigation
import UefiNexus.Proof.Cursor
import UefiNexus.Proof.Picture

namespace UefiNexus

variable {W : Type} {a : AdapterManager W} {key : NxUiKey} {status : NxStatus}
  {s s' : PageMemPageState} {w w' : W}

/-! ## Drawable page states -/

/-- What the drawing routines rely on. -/
structure Drawable (s : PageMemPageState) : Prop where
  width : WidthOk s.cursorState.width
  offset : s.cursorState.offset.toNat < 256
  address : 256 ∣ s.cursorState.address.toNat

theorem dvd_alignToPage (address : NxU64) : 256 ∣ (pageCoreAlignToPage address pageSize).toNat := by
  rw [pageCoreAlignToPage, if_neg (by decide)]
  exact Align.dvd_and_not_mask pageSize_powTwo

/-- A page move ends on a block. -/
theorem MovesPage.dvd {s₁ : PageMemPageState} {w₁ : W} (h : MovesPage a w key s s₁ w₁)
    (hs : 256 ∣ s.cursorState.address.toNat) : 256 ∣ s₁.cursorState.address.toNat := by
  cases h with
  | goto => exact dvd_alignToPage _
  | pageDown _ hmoved =>
    rw [pageMemActionPageDown, pageMemMoveToPage_moves hmoved]
    exact nextPage_dvd pageSize_powTwo hs
  | pageUp _ hmoved =>
    rw [pageMemActionPageUp, pageMemMoveToPage_moves hmoved]
    exact previousPage_dvd pageSize_powTwo hs

/-- **Every key** leaves a drawable state, in the mode it is served in. -/
theorem handleKeyPress_drawable (hs : Drawable s) (hmode : s.currentState = .viewing)
    (h : pageMemControllerHandleKeyPress key s a w = (some (status, s'), w')) :
    Drawable s' ∧ s'.currentState = .viewing := by
  have hstep := (handleKeyPress_steps h).2
  have hwidth := hstep.widthOk hs.width
  have hoffset := hstep.offset_lt hs.width hs.offset
  have haddress : 256 ∣ s'.cursorState.address.toNat ∧ s'.currentState = .viewing := by
    cases handleKeyPress_run h with
    | esc => exact ⟨hs.address, hmode⟩
    | arrow _ _ hmove =>
      rw [(moveCursorByKey_eq hmove).2]
      exact ⟨hs.address, hmode⟩
    | edit => exact ⟨hs.address, rfl⟩
    | cancelled => exact ⟨hs.address, rfl⟩
    | goto => exact ⟨dvd_alignToPage _, rfl⟩
    | page => exact ⟨hs.address, hmode⟩
    | moves hmove htype =>
      have hview := updatePageType_sameView htype
      rw [hview.cursor, hview.mode]
      exact ⟨hmove.dvd hs.address, hmove.mode.elim id fun h => h.trans hmode⟩
    | ranges => exact ⟨hs.address, hmode⟩
    | width => exact ⟨hs.address, hmode⟩
    | unknown => exact ⟨hs.address, hmode⟩
  exact ⟨⟨hwidth, hoffset, haddress.1⟩, haddress.2⟩

/-- The state the initialization leaves. -/
theorem pageMemControllerInit_drawable
    (h : pageMemControllerInit s a w = (some (status, s'), w')) (hok : nxUiError status = false) :
    Drawable s' ∧ s'.currentState = .viewing := by
  obtain ⟨_, descriptors, _, -, -, -, hcursor, hmode, -⟩ := pageMemControllerInit_success h hok
  refine ⟨⟨?_, ?_, ?_⟩, hmode⟩
  · rw [hcursor]
    exact Or.inl rfl
  · rw [hcursor]
    exact (by decide : (0 : NxUintn).toNat < 256)
  · rw [hcursor]
    exact dvd_alignToPage _

theorem serveKey_drawable (hs : Drawable s) (hmode : s.currentState = .viewing)
    (h : serveKey a s w = (some (.inl s'), w')) : Drawable s' ∧ s'.currentState = .viewing := by
  obtain ⟨_, _, _, _, -, hpress, -⟩ := serveKey_eq_inl h
  exact handleKeyPress_drawable hs hmode hpress

/-! ## Runs -/

section
variable (a : AdapterManager W) (s₀ : PageMemPageState) (w₀ : W)

/-- **Whenever a key is awaited**, the page is being viewed and can be drawn. -/
theorem runVisits_drawable :
    ∀ n s w, runVisits a n s₀ w₀ = some (s, w) → Drawable s ∧ s.currentState = .viewing
  | 0, s, w, h => by
    obtain ⟨_, s₁, _, hinit, hok, htop⟩ := runVisits_zero.1 h
    obtain ⟨hs, hmode⟩ := pageMemControllerInit_drawable hinit hok
    rw [redrawIfNeeded_eq htop]
    exact ⟨⟨hs.width, hs.offset, hs.address⟩, hmode⟩
  | n + 1, s, w, h => by
    obtain ⟨s₁, w₁, s₂, w₂, hvisit, hserve, htop⟩ := runVisits_succ.1 h
    obtain ⟨hs₁, hmode₁⟩ := runVisits_drawable n s₁ w₁ hvisit
    obtain ⟨hs, hmode⟩ := serveKey_drawable hs₁ hmode₁ hserve
    rw [redrawIfNeeded_eq htop]
    exact ⟨⟨hs.width, hs.offset, hs.address⟩, hmode⟩

/-- The page states a run draws: at the top of the loop, after the initialization
    and after each key, and with the cursor an arrow has moved. -/
inductive DrawnState : PageMemPageState → Prop where
  | first {status : NxStatus} {s : PageMemPageState} {w : W}
    (h : pageMemControllerInit s₀ a w₀ = (some (status, s), w)) (hok : nxUiError status = false) :
    DrawnState s
  | next {n : ℕ} {s s' : PageMemPageState} {w w' : W}
    (h : runVisits a n s₀ w₀ = some (s, w)) (hserve : serveKey a s w = (some (.inl s'), w')) :
    DrawnState s'
  | arrow {n : ℕ} {s : PageMemPageState} {w w' : W} {key : NxUiKey}
    (h : runVisits a n s₀ w₀ = some (s, w)) (hread : a.tui.readKey w = (some key, w'))
    (harrow : keyDelta key s.cursorState.width ≠ 0) :
    DrawnState { s with
      cursorState := pageCoreMoveCursor s.cursorState (keyDelta key s.cursorState.width) }

theorem drawn_drawable {s : PageMemPageState} (h : DrawnState a s₀ w₀ s) : Drawable s := by
  cases h with
  | first h hok => exact (pageMemControllerInit_drawable h hok).1
  | next h hserve =>
    obtain ⟨hs, hmode⟩ := runVisits_drawable a s₀ w₀ _ _ _ h
    exact (serveKey_drawable hs hmode hserve).1
  | arrow h hread harrow =>
    obtain ⟨hs, -⟩ := runVisits_drawable a s₀ w₀ _ _ _ h
    exact ⟨hs.width, (moveCursor_onCell hs.width _).offset_lt hs.width, hs.address⟩

end

/-! ## The areas -/

/-- Text goes to the rows of the data only, and to the columns 4 to 51. -/
def AdapterCall.InGrid : AdapterCall → Prop
  | outputStringAt column row text =>
    pageMemDataRow.toNat ≤ row.toNat ∧ row.toNat ≤ pageMemDataRow.toNat + 15 ∧
      4 ≤ column.toNat ∧ column.toNat + text.length ≤ 52
  | outputString _ => False
  | setCursorPosition _ _ => False
  | clearScreen => False
  | _ => True

/-- Text goes to other rows than those of the data, or to other columns. -/
def AdapterCall.OffGrid : AdapterCall → Prop
  | outputStringAt column row text =>
    row.toNat < pageMemDataRow.toNat ∨ pageMemDataRow.toNat + 15 < row.toNat ∨
      column.toNat + text.length ≤ 4 ∨ 52 ≤ column.toNat
  | setCursorPosition _ row => row.toNat < pageMemDataRow.toNat
  | _ => True

/-- The text at a position is to the left of another one, or in another row. -/
def Apart (position position' : NxUintn × NxUintn) (text text' : List NxUiChar) : Prop :=
  position.2 ≠ position'.2 ∨ position.1.toNat + text.length ≤ position'.1.toNat ∨
    position'.1.toNat + text'.length ≤ position.1.toNat

/-- **Drawing the page state is well defined and stays in its areas.** -/
structure Draws (a : AdapterManager W) (s : PageMemPageState) : Prop where
  /-- No divisor is zero. -/
  divisors : s.cursorState.width ≠ 0 ∧ cols / s.cursorState.width * s.cursorState.width ≠ 0
  /-- The loops end. -/
  header : drawMemoryHeader a.tui s = do
    a.tui.setAttribute pageMemAttrNormal
    a.tui.setCursorPosition 4 pageMemHeaderRow
    Prog.each (fun k => a.tui.outputString (columnHeading s.cursorState.width
      (cellOffset s.cursorState.width k))) (List.range' 0 (16 / s.cursorState.width.toNat))
  rows : drawMemoryRows a.tui a.memory s =
    Prog.each (fun k => drawMemoryStep a.tui a.memory s (cellOffset s.cursorState.width k))
      (List.range' 0 (cellCount s.cursorState.width))
  /-- No address wraps around. -/
  address : ∀ offset : NxUintn, offset.toNat < 256 →
    (s.cursorState.address + offset).toNat = s.cursorState.address.toNat + offset.toNat
  /-- Cells go to the grid, the rest does not. -/
  cells : ∀ offset highlight, offset.toNat < 256 → Prog.Sat (Extends AdapterCall.InGrid)
    (drawCell (traced a).tui (traced a).memory s offset highlight)
  rowPrefix : ∀ offset row,
    Prog.Sat (Extends AdapterCall.OffGrid) (renderRowPrefix (traced a).tui offset row)
  preview : ∀ offset row, Prog.Sat (Extends AdapterCall.OffGrid)
    (renderAsciiPreview (traced a).tui (traced a).memory s offset row)
  heading : Prog.Sat (Extends AdapterCall.OffGrid) (drawMemoryHeader (traced a).tui s)
  info : Prog.Sat (Extends AdapterCall.OffGrid) (pageMemViewUpdateInfo (traced a).tui s)
  /-- The cells of different offsets are apart. -/
  apart : ∀ offset offset' : NxUintn, offset.toNat < 256 → offset'.toNat < 256 →
    s.cursorState.width.toNat ∣ offset.toNat → s.cursorState.width.toNat ∣ offset'.toNat →
    offset ≠ offset' → ∀ status value status' value',
      Apart (getCellPosition s offset) (getCellPosition s offset')
        (cellText s.cursorState.width status value) (cellText s.cursorState.width status' value')

theorem cell_inGrid (hw : WidthOk s.cursorState.width) {offset : NxUintn}
    (hlt : offset.toNat < 256) (status : NxStatus) (value : NxU64) :
    (AdapterCall.outputStringAt (getCellPosition s offset).1 (getCellPosition s offset).2
      (cellText s.cursorState.width status value)).InGrid := by
  obtain ⟨hcolumn, hrow⟩ := toNat_getCellPosition hw hlt
  have hdata : pageMemDataRow.toNat = 3 := rfl
  have hlength := (cellText_spec hw status value).2
  have hend : 4 + offset.toNat % 16 / s.cursorState.width.toNat *
      (s.cursorState.width.toNat * 2 + 1) + (s.cursorState.width.toNat * 2 + 1) ≤ 52 := by
    obtain h | h | h | h := hw
    all_goals
      rw [h]
      simp only [BitVec.reduceToNat]
      omega
  rw [← hcolumn, ← hlength] at hend
  exact ⟨by omega, by omega, by omega, hend⟩

theorem cell_apart (hw : WidthOk s.cursorState.width) {offset offset' : NxUintn}
    (hlt : offset.toNat < 256) (hlt' : offset'.toNat < 256)
    (hdvd : s.cursorState.width.toNat ∣ offset.toNat)
    (hdvd' : s.cursorState.width.toNat ∣ offset'.toNat) (hne : offset ≠ offset')
    (status : NxStatus) (value : NxU64) (status' : NxStatus) (value' : NxU64) :
    Apart (getCellPosition s offset) (getCellPosition s offset')
      (cellText s.cursorState.width status value)
      (cellText s.cursorState.width status' value') := by
  obtain ⟨hcolumn, hrow⟩ := toNat_getCellPosition hw hlt
  obtain ⟨hcolumn', hrow'⟩ := toNat_getCellPosition hw hlt'
  rw [ne_eq, ← BitVec.toNat_inj] at hne
  rw [Apart, ne_eq, ← BitVec.toNat_inj, hcolumn, hrow, hcolumn', hrow',
    (cellText_spec hw status value).2, (cellText_spec hw status' value').2]
  obtain h | h | h | h := hw
  all_goals
    rw [h] at hdvd hdvd' ⊢
    simp only [BitVec.reduceToNat] at hdvd hdvd' ⊢
    omega

theorem Drawable.draws (hs : Drawable s) (a : AdapterManager W) : Draws a s where
  divisors := by
    obtain h | h | h | h := hs.width
    all_goals rw [h]; decide
  header := drawMemoryHeader_eq a.tui s hs.width
  rows := drawMemoryRows_eq a.tui a.memory s hs.width
  address offset hlt := by
    have haddress := hs.address
    have hend := s.cursorState.address.isLt
    rw [BitVec.toNat_add, Nat.mod_eq_of_lt]
    omega
  cells offset highlight hlt := by
    have ha := traced_extends a AdapterCall.InGrid
    have hshow : ∀ r : NxStatus × NxU64, Prog.Sat (Extends AdapterCall.InGrid) (do
        (traced a).tui.outputStringAt (getCellPosition s offset).1 (getCellPosition s offset).2
          (cellText s.cursorState.width r.1 r.2)
        (traced a).tui.setAttribute pageMemAttrNormal) := fun r =>
      ha.closed.seq (ha.outputStringAt _ _ _ (cell_inGrid hs.width hlt r.1 r.2)) fun _ =>
        ha.setAttribute _ trivial
    refine ha.closed.seq (ha.setAttribute _ trivial) fun _ => ?_
    dsimp only
    split_ifs
    · exact ha.closed.seq (ha.memRead _ _ trivial) hshow
    · exact ha.closed.seq (ha.closed.ret _) hshow
  rowPrefix offset row := by
    refine (traced_extends a AdapterCall.OffGrid).outputStringAt _ _ _ (Or.inr (Or.inr (Or.inl ?_)))
    have hzero : (0 : NxUintn).toNat = 0 := rfl
    have hlength := length_rowPrefix_le offset
    omega
  preview offset row := by
    have ha := traced_extends a AdapterCall.OffGrid
    have hreads : (traced a).Serves AdapterCall.Reads (Prog.Sat (Extends AdapterCall.OffGrid)) :=
      ha.mono fun c _ => by cases c <;> trivial
    exact ha.closed.seq (hreads.asciiPreviewFrom s offset _ _) fun _ =>
      ha.outputStringAt _ _ _ (Or.inr (Or.inr (Or.inr (by decide))))
  heading := by
    have ha := traced_extends a AdapterCall.OffGrid
    rw [drawMemoryHeader_eq (traced a).tui s hs.width]
    refine ha.closed.seq (ha.setAttribute _ trivial) fun _ =>
      ha.closed.seq (ha.setCursorPosition _ _ ?_) fun _ =>
        ha.closed.each fun k _ => ha.outputString _ trivial
    exact (by decide : pageMemHeaderRow.toNat < pageMemDataRow.toNat)
  info := by
    have ha := traced_extends a AdapterCall.OffGrid
    have hrow : pageMemDataRow.toNat + 15 < pageMemInfoRow.toNat := by decide
    exact ha.closed.seq (ha.closed.seq (ha.getScreenDimensions trivial) fun _ =>
      ha.outputStringAt _ _ _ (Or.inr (Or.inl hrow))) fun _ =>
        ha.outputStringAt _ _ _ (Or.inr (Or.inl hrow))
  apart offset offset' hlt hlt' hdvd hdvd' hne := cell_apart hs.width hlt hlt' hdvd hdvd' hne

/-- **Drawing is always well defined and stays in its areas.**  Whenever a run
    awaits a key, the page is being viewed, the width is supported, the cursor is
    on the page and the page is a block; so it is for every page state the run
    draws, and such a state is drawn without a division by zero, an endless loop
    or an address that wraps around, with its cells in the grid and apart. -/
theorem drawing_in_areas (a : AdapterManager W) (s₀ : PageMemPageState) (w₀ : W) :
    (∀ n s w, runVisits a n s₀ w₀ = some (s, w) → Drawable s ∧ s.currentState = .viewing) ∧
    (∀ s, DrawnState a s₀ w₀ s → Drawable s) ∧
    ∀ s, Drawable s → Draws a s :=
  ⟨runVisits_drawable a s₀ w₀, fun _ => drawn_drawable a s₀ w₀, fun _ hs => hs.draws a⟩

end UefiNexus
