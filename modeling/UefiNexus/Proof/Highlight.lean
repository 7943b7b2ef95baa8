/-
  The highlight is the cursor.

  When the loop awaits a key, the highlighted positions of the grid are those of
  the selected cell (`Selected`), which shows what is read at the cursor, and the
  information row shows the address (`Pointed`).  A redraw leaves the screen so,
  and so does the fast path: the cell the cursor leaves gets the normal attribute
  and the cell it enters is painted last.  Unlike the rest of the grid, this does
  not depend on where the cursor came from.
-/
import UefiNexus.Proof.Redraw

namespace UefiNexus

open Grid

variable {W M : Type} {T : Terminal W M} {a : AdapterManager W} {e : M}
  {s s' s'' : PageMemPageState} {row column : ℕ} {w w' w'' : W}

/-! ## Runs -/

/-- A property of what is shown, which every redraw establishes and the fast path
    keeps. -/
structure KeptShown (T : Terminal W M) (a : AdapterManager W) (P : PageMemPageState → W → Prop) :
    Prop where
  redraw : ∀ {s w}, WidthOk s.cursorState.width → s.cursorState.offset.toNat < 256 →
    ∃ w', pageMemViewDrawPage a.tui a.memory s w = (some (), w') ∧
      P { s with needsRedraw := false } w'
  congr : ∀ {s w w'}, T.screen w' = T.screen w → T.env w' = T.env w → P s w → P s w'
  moves : ∀ {s w offset}, WidthOk s.cursorState.width → s.cursorState.offset.toNat < 256 →
    OnCell (movedTo s offset).cursorState → P s w →
    ∃ w', fastPath a (movedTo s offset) s.cursorState.offset w = (some (), w') ∧
      P { movedTo s offset with needsRedraw := false } w'

section
variable {P : PageMemPageState → W → Prop}

/-- A redraw that is due. -/
theorem KeptShown.of_redraw (hP : KeptShown T a P) (hw : WidthOk s.cursorState.width)
    (hlt : s.cursorState.offset.toNat < 256) (hflag : s.needsRedraw = true)
    (htop : redrawIfNeeded a s w = (some s', w')) : P s' w' := by
  obtain ⟨w₁, hdraw, hpage⟩ := hP.redraw (w := w) hw hlt
  rw [redrawIfNeeded, if_pos hflag, Prog.bind_of_some hdraw] at htop
  obtain ⟨rfl, rfl⟩ := Prog.pure_eq_some.1 htop
  exact hpage

/-- A key that is served, and the redraw after it. -/
theorem KeptShown.of_serveKey (hP : KeptShown T a P) (h : T.Drives a)
    (hw : WidthOk s.cursorState.width) (hlt : s.cursorState.offset.toNat < 256) (hs : P s w)
    (hserve : serveKey a s w = (some (.inl s'), w'))
    (htop : redrawIfNeeded a s' w' = (some s'', w'')) : P s'' w'' := by
  obtain ⟨key, w₁, status, w₂, hread, hpress, hreport⟩ := serveKey_eq_inl hserve
  by_cases hflag : s'.needsRedraw = true
  · exact hP.of_redraw ((handleKeyPress_steps hpress).2.widthOk hw)
      ((handleKeyPress_steps hpress).2.offset_lt hw hlt) hflag htop
  rw [redrawIfNeeded, if_neg hflag] at htop
  obtain ⟨rfl, rfl⟩ := Prog.pure_eq_some.1 htop
  obtain ⟨hscreen, henv⟩ := h.readKey w key w₁ hread
  obtain ⟨hquiet, hdone⟩ := handleKeyPress_noRedraw hpress (Bool.eq_false_of_not_eq_true hflag)
  obtain rfl : w' = w₂ := by
    rcases hreport with ⟨hloud, -⟩ | ⟨-, heq⟩
    · rw [hquiet] at hloud
      cases hloud
    · exact heq
  rcases hdone with ⟨rfl, rfl⟩ | ⟨-, -, offset, -, hoffset, rfl, hrun⟩
  · exact hP.congr hscreen henv hs
  have hcell' : OnCell (movedTo s offset).cursorState := by
    rw [hoffset]
    exact moveCursor_onCell hw _
  obtain ⟨w₃, hrun', hmoved⟩ := hP.moves hw hlt hcell' (hP.congr hscreen henv hs)
  rw [hrun] at hrun'
  cases hrun'
  exact hmoved

/-- **Whenever a key is awaited**, the property holds. -/
theorem KeptShown.of_visit (hP : KeptShown T a P) (h : T.Drives a) {s₀ : PageMemPageState}
    {w₀ : W} (n : ℕ) : ∀ s w, runVisits a n s₀ w₀ = some (s, w) → P s w := by
  induction n with
  | zero =>
    intro s w hvisit
    obtain ⟨status, s₁, w₁, hinit, hok, htop⟩ := runVisits_zero.1 hvisit
    obtain ⟨_, _, _, -, -, -, hcursor, -, hflag, -⟩ := pageMemControllerInit_success hinit hok
    have hw : WidthOk s₁.cursorState.width := by
      rw [hcursor]
      exact Or.inl rfl
    have hlt : s₁.cursorState.offset.toNat < 256 := by
      rw [hcursor]
      exact (by decide : (0 : NxUintn).toNat < 256)
    exact hP.of_redraw hw hlt hflag htop
  | succ n ih =>
    intro s w hvisit
    obtain ⟨s₁, w₁, s₂, w₂, hvisit₁, hserve, htop⟩ := runVisits_succ.1 hvisit
    exact hP.of_serveKey h (runVisits_widthOk a s₀ w₀ n s₁ w₁ hvisit₁)
      (runVisits_offset_lt a s₀ w₀ n s₁ w₁ hvisit₁) (ih s₁ w₁ hvisit₁) hserve htop

end

/-! ## The selected cell -/

/-- The position is on the selected cell; a cursor inside a cell selects none. -/
def Selected (c : PageMemCursorState) (row column : ℕ) : Prop :=
  c.width.toNat ∣ c.offset.toNat ∧ row = 3 + c.offset.toNat / 16 ∧
    4 + c.offset.toNat % 16 / c.width.toNat * (c.width.toNat * 2 + 1) ≤ column ∧
    column < 4 + c.offset.toNat % 16 / c.width.toNat * (c.width.toNat * 2 + 1) +
      (c.width.toNat * 2 + 1)

/-- The stroke of the selected cell. -/
def Terminal.cursorStroke (T : Terminal W M) (e : M) (s : PageMemPageState) :
    Stroke NxUiChar NxUintn := T.cellStroke e s s.cursorState.offset true

theorem cursor_covers_iff (T : Terminal W M) (e : M) (hw : WidthOk s.cursorState.width)
    (hlt : s.cursorState.offset.toNat < 256) : Selected s.cursorState row column ↔
      s.cursorState.width.toNat ∣ s.cursorState.offset.toNat ∧
        (T.cursorStroke e s).Covers row column := by
  obtain ⟨hcolumn, hrow⟩ := toNat_getCellPosition hw hlt
  have hlength := length_cellStroke (T := T) (e := e) hw s.cursorState.offset true
  have hplace : (T.cursorStroke e s).row = 3 + s.cursorState.offset.toNat / 16 ∧
      (T.cursorStroke e s).column = 4 + s.cursorState.offset.toNat % 16 /
        s.cursorState.width.toNat * (s.cursorState.width.toNat * 2 + 1) := ⟨hrow, hcolumn⟩
  unfold Selected Stroke.Covers
  rw [hplace.1, hplace.2]
  unfold Terminal.cursorStroke
  rw [hlength]

/-! ## What the screen shows -/

/-- The selected cell is highlighted, and nothing else in the grid; the information
    row is that of the cursor. -/
structure Pointed (T : Terminal W M) (s : PageMemPageState) (w : W) : Prop where
  attr : (T.screen w).attr = pageMemAttrNormal
  info : ∀ column, (T.screen w).cells 19 column =
    paintAll blank (T.infoStrokes (T.env w) s) 19 column
  cell : ∀ row column, Selected s.cursorState row column →
    (T.screen w).cells row column = (T.cursorStroke (T.env w) s).shows row column
  apart : ∀ row column, 3 ≤ row → row < 19 → ¬ Selected s.cursorState row column →
    ((T.screen w).cells row column).map Prod.snd ≠ some pageMemAttrHighlight

theorem normal_ne_highlight : pageMemAttrNormal ≠ pageMemAttrHighlight := by decide

/-- The strokes of the grid off the selected cell are not highlighted. -/
theorem grid_apart (hw : WidthOk s.cursorState.width) (hlt : s.cursorState.offset.toNat < 256)
    (h : ¬ Selected s.cursorState row column) :
    (paintAll blank (T.gridStrokes e s) row column).map Prod.snd ≠ some pageMemAttrHighlight := by
  refine paintAll_attr_ne (fun t ht hcovers => ?_) (by simp [blank])
  obtain ⟨k, hk, ht⟩ := List.mem_flatMap.1 ht
  rcases List.mem_append.1 ht with ht | ht
  · have hline : t.attr = pageMemAttrNormal := by
      unfold Terminal.lineStrokes at ht
      split_ifs at ht
      · rcases List.mem_cons.1 ht with rfl | ht
        · rfl
        · rw [List.mem_singleton.1 ht]
          rfl
      · cases ht
    rw [hline]
    exact normal_ne_highlight
  · rw [List.mem_singleton.1 ht] at hcovers ⊢
    by_cases hoffset : cellOffset s.cursorState.width k = s.cursorState.offset
    · -- the cell of the cursor covers selected positions only
      refine absurd ((cursor_covers_iff T e hw hlt).2 ⟨?_, ?_⟩) h
      · rw [← hoffset]
        exact (cellOffset_lt hw hk).2
      · rw [hoffset] at hcovers
        exact hcovers
    · rw [decide_eq_false hoffset]
      exact normal_ne_highlight

/-- A page that is shown points at the cursor. -/
theorem Shown.pointed (h : Shown T s w) (hw : WidthOk s.cursorState.width)
    (hlt : s.cursorState.offset.toNat < 256) : Pointed T s w where
  attr := h.attr
  info column := by
    rw [h.cells 19 column (by decide) (by decide)]
    exact if_pos rfl
  cell row column hsel := by
    obtain ⟨hdvd, hcovers⟩ := (cursor_covers_iff T (T.env w) hw hlt).1 hsel
    have hrow : row = 3 + s.cursorState.offset.toNat / 16 := hsel.2.1
    have hgrid : ¬ row = 19 := by omega
    rw [h.cells row column (by omega) (by omega), shown, if_neg hgrid,
      grid_cell hw hlt hdvd hcovers, decide_eq_true rfl]
    rfl
  apart row column hlow hhigh hsel := by
    have hgrid : ¬ row = 19 := by omega
    rw [h.cells row column hlow hhigh.le, shown, if_neg hgrid]
    exact grid_apart hw hlt hsel

/-- **The fast path moves the highlight.** -/
theorem fastPath_pointed (h : T.Drives a) (hw : WidthOk s.cursorState.width)
    (hlt : s.cursorState.offset.toNat < 256) {offset : NxUintn}
    (hcell' : OnCell (movedTo s offset).cursorState) (hpointed : Pointed T s w) :
    ∃ w', fastPath a (movedTo s offset) s.cursorState.offset w = (some (), w') ∧
      Pointed T (movedTo s offset) w' := by
  have hpaint : T.Draws (T.env w) pageMemAttrNormal pageMemAttrNormal
      ([T.cellStroke (T.env w) s s.cursorState.offset false,
        T.cursorStroke (T.env w) (movedTo s offset)] ++
          T.infoStrokes (T.env w) (movedTo s offset))
      (fastPath a (movedTo s offset) s.cursorState.offset) () :=
    (h.draws_cell (movedTo s offset) hw _ _).bind <|
      (h.draws_cell (movedTo s offset) hw _ _).bind (h.draws_info _)
  obtain ⟨w', hrun, henv, hattr, hcells⟩ := hpaint w rfl hpointed.attr
  have hw' : WidthOk (movedTo s offset).cursorState.width := hw
  have hlt' := hcell'.offset_lt hw'
  have hgrid : ∀ row column, row ≠ 19 → (T.screen w').cells row column =
      paintAll (T.screen w).cells [T.cellStroke (T.env w) s s.cursorState.offset false,
        T.cursorStroke (T.env w) (movedTo s offset)] row column := by
    intro row column hrow
    rw [hcells]
    exact paintAll_append_right fun t ht => not_covers_of_row (by rw [info_rows ht]; exact hrow)
  refine ⟨w', hrun, hattr, fun column => ?_, fun row column hsel => ?_,
    fun row column hlow hhigh hsel => ?_⟩
  · have hapart : ∀ t ∈ [T.cellStroke (T.env w) s s.cursorState.offset false,
        T.cursorStroke (T.env w) (movedTo s offset)], ¬ t.Covers 19 column := by
      intro t ht hcovers
      rcases List.mem_cons.1 ht with rfl | ht
      · have hrow := (cell_covers hw hlt hcovers).1
        omega
      · rw [List.mem_singleton.1 ht] at hcovers
        have hrow := (cell_covers hw' hlt' hcovers).1
        omega
    have hwidth : s.cursorState.width = (movedTo s offset).cursorState.width := rfl
    rw [hcells, henv, paintAll_append_left hapart, paintAll_or, hpointed.info column, ← paintAll_or]
    exact paintAll_over fun t ht hc => info_covers hwidth ht hc
  · have hcovers := ((cursor_covers_iff T (T.env w) hw' hlt').1 hsel).2
    have hrow : row = 3 + (movedTo s offset).cursorState.offset.toNat / 16 := hsel.2.1
    rw [hgrid row column (by omega), henv, paintAll_cons]
    refine paintAll_eq ?_ (Or.inr ⟨_, List.mem_singleton_self _, hcovers⟩)
    intro t ht _
    rw [List.mem_singleton.1 ht]
  · rw [hgrid row column (by omega)]
    have hnew : ¬ (T.cursorStroke (T.env w) (movedTo s offset)).Covers row column := fun hcovers =>
      hsel ((cursor_covers_iff T (T.env w) hw' hlt').2 ⟨hcell'.dvd, hcovers⟩)
    have hlast : ∀ t ∈ [T.cursorStroke (T.env w) (movedTo s offset)], ¬ t.Covers row column := by
      intro t ht
      rw [List.mem_singleton.1 ht]
      exact hnew
    rw [paintAll_cons, paintAll_apart hlast]
    by_cases hold : (T.cellStroke (T.env w) s s.cursorState.offset false).Covers row column
    · obtain ⟨x, hx⟩ := Option.isSome_iff_exists.1 (Stroke.shows_isSome hold)
      rw [paint, hx, Option.some_or, Option.map_some, Stroke.attr_of_shows hx]
      exact fun heq => normal_ne_highlight (Option.some.inj heq)
    · rw [paint, Stroke.shows_eq_none hold, Option.none_or]
      refine hpointed.apart row column hlow hhigh fun hsel => hold ?_
      exact ((cursor_covers_iff T (T.env w) hw hlt).1 hsel).2

/-- Every screen of a run points at the cursor. -/
theorem pointed_kept (h : T.Drives a) : KeptShown T a (Pointed T) where
  redraw {s w} hw hlt := by
    obtain ⟨w', hdraw, -, hshown⟩ := drawPage_shown h hw w
    obtain ⟨hattr, hinfo, hcell, hapart⟩ := hshown.pointed hw hlt
    exact ⟨w', hdraw, hattr, hinfo, hcell, hapart⟩
  congr := by
    rintro s w w' hscreen henv ⟨hattr, hinfo, hcell, hapart⟩
    rw [← hscreen] at hattr hinfo hcell hapart
    rw [← henv] at hinfo hcell
    exact ⟨hattr, hinfo, hcell, hapart⟩
  moves {s w offset} hw hlt hcell' hpointed := by
    obtain ⟨w', hrun, hattr, hinfo, hcell, hapart⟩ := fastPath_pointed h hw hlt hcell' hpointed
    exact ⟨w', hrun, hattr, hinfo, hcell, hapart⟩

/-- Whenever a key is awaited, the screen points at the cursor. -/
theorem runVisits_pointed (h : T.Drives a) {s₀ : PageMemPageState} {w₀ : W} {n : ℕ}
    (hvisit : runVisits a n s₀ w₀ = some (s, w)) : Pointed T s w :=
  (pointed_kept h).of_visit h n s w hvisit

/-! ## What the user reads -/

/-- The highlight of a screen that points at the cursor. -/
theorem Pointed.highlight_iff (h : Pointed T s w) (hw : WidthOk s.cursorState.width)
    (hlt : s.cursorState.offset.toNat < 256) (hlow : 3 ≤ row) (hhigh : row < 19) :
    ((T.screen w).cells row column).map Prod.snd = some pageMemAttrHighlight ↔
      Selected s.cursorState row column := by
  constructor
  · intro hattr
    by_contra hsel
    exact h.apart row column hlow hhigh hsel hattr
  · intro hsel
    have hcovers := ((cursor_covers_iff T (T.env w) hw hlt).1 hsel).2
    obtain ⟨x, hx⟩ := Option.isSome_iff_exists.1 (Stroke.shows_isSome hcovers)
    rw [h.cell row column hsel, hx, Option.map_some, Stroke.attr_of_shows hx]
    rfl

/-- The text of the selected cell. -/
theorem Pointed.shows_cell (h : Pointed T s w) (hw : WidthOk s.cursorState.width)
    (hlt : s.cursorState.offset.toNat < 256)
    (hdvd : s.cursorState.width.toNat ∣ s.cursorState.offset.toNat) :
    ShowsText (T.screen w).cells (T.cursorStroke (T.env w) s).row
      (T.cursorStroke (T.env w) s).column (T.cursorStroke (T.env w) s).text :=
  showsText_self fun _ hcovers =>
    h.cell _ _ ((cursor_covers_iff T (T.env w) hw hlt).2 ⟨hdvd, hcovers⟩)

/-- The information row is wide enough for its line. -/
theorem length_infoText_le (hw : WidthOk s.cursorState.width) :
    (infoText s.cursorState).length ≤ 127 := by
  have hwidth : (decimalDigits s.cursorState.width 20).reverse.length = 1 := by
    rcases hw with h | h | h | h <;> rw [h] <;> rfl
  have hliterals : (ascii "Addr: ").length = 6 ∧ (ascii "0x").length = 2 ∧
      (ascii "  Offset: ").length = 10 ∧ (ascii "  Width: ").length = 9 := by decide
  unfold infoText
  simp only [List.length_append, length_hexDigits, hwidth, hliterals]
  omega

/-- The text of the information row. -/
theorem widened_info (hw : WidthOk s.cursorState.width) :
    widened (buildInfoString s (uninitialized 128) 128) 128 =
      (infoText s.cursorState).map (BitVec.setWidth 16) := by
  have hlength := length_infoText_le hw
  have hwide : ((infoText s.cursorState).map (BitVec.setWidth 16)).length ≤ 127 := by
    rw [List.length_map]
    exact hlength
  rw [widened_eq _ (by decide), infoString_string s (by decide) (le_uninitialized _)]
  show (((infoText s.cursorState).take 127).map (BitVec.setWidth 16)).take 127 = _
  rw [List.take_of_length_le hlength, List.take_of_length_le hwide]

theorem Pointed.shows_info (h : Pointed T s w) (hw : WidthOk s.cursorState.width) :
    ShowsText (T.screen w).cells 19 0 ((infoText s.cursorState).map (BitVec.setWidth 16)) := by
  have htext : (T.stroke 0 pageMemInfoRow
      (widened (buildInfoString s (uninitialized 128) 128) 128) pageMemAttrNormal).text =
        (infoText s.cursorState).map (BitVec.setWidth 16) := by
    rw [← widened_info hw]
    exact T.render_plain _ (Terminal.info_widened_plain s)
  rw [← htext]
  refine showsText_self fun column hcovers => ?_
  refine (h.info column).trans ?_
  rw [Terminal.infoStrokes, paintAll_cons]
  refine paintAll_eq ?_ (Or.inr ⟨_, List.mem_singleton_self _, hcovers⟩)
  intro t ht _
  rw [List.mem_singleton.1 ht]
  rfl

/-- **The highlight is the cursor.**  Whenever a run awaits a key, on any adapters
    with a text terminal: a position of the grid is highlighted exactly if it is on
    the selected cell, that cell shows what is read at the cursor now, and the
    information row shows the address, the offset and the width of the cursor. -/
theorem highlight_is_cursor (h : T.Drives a) (n : ℕ) (s₀ s : PageMemPageState) (w₀ w : W)
    (hvisit : runVisits a n s₀ w₀ = some (s, w)) :
    (∀ row column, pageMemDataRow.toNat ≤ row → row < pageMemInfoRow.toNat →
      (((T.screen w).cells row column).map Prod.snd = some pageMemAttrHighlight ↔
        Selected s.cursorState row column)) ∧
    (s.cursorState.width.toNat ∣ s.cursorState.offset.toNat →
      ShowsText (T.screen w).cells (getCellPosition s s.cursorState.offset).2.toNat
        (getCellPosition s s.cursorState.offset).1.toNat
        (cellText s.cursorState.width
          (T.valueAt (T.env w) s (pageCoreGetCurrentAddress s.cursorState) s.cursorState.width).1
          (T.valueAt (T.env w) s (pageCoreGetCurrentAddress s.cursorState)
            s.cursorState.width).2)) ∧
    ShowsText (T.screen w).cells pageMemInfoRow.toNat 0
      ((infoText s.cursorState).map (BitVec.setWidth 16)) := by
  have hw := runVisits_widthOk a s₀ w₀ n s w hvisit
  have hlt := runVisits_offset_lt a s₀ w₀ n s w hvisit
  have hpointed := runVisits_pointed h hvisit
  refine ⟨fun row column hlow hhigh => hpointed.highlight_iff hw hlt hlow hhigh, fun hdvd => ?_,
    hpointed.shows_info hw⟩
  have hcell := hpointed.shows_cell hw hlt hdvd
  have htext : (T.cursorStroke (T.env w) s).text = cellText s.cursorState.width
      (T.valueAt (T.env w) s (pageCoreGetCurrentAddress s.cursorState) s.cursorState.width).1
      (T.valueAt (T.env w) s (pageCoreGetCurrentAddress s.cursorState) s.cursorState.width).2 :=
    T.render_plain _ (cellText_spec hw _ _).1
  rw [htext] at hcell
  exact hcell

/-- A width of 4, goto `0x1001`, and an arrow to the right: the highlight is on the
    cell at `0x1004`. -/
theorem highlight_is_cursor_unaligned :
    ∃ s w, runVisits (deskAdapters deskMap) 3 deskState
        (desk [charKey '4', charKey 'g', ⟨nxUiScanRight, 0⟩] [0x1001]) = some (s, w) ∧
      s.cursorState = ⟨0x1000, 4, 4⟩ ∧
      (∀ row column, 3 ≤ row → row < 19 →
        ((w.screen.cells row column).map Prod.snd = some pageMemAttrHighlight ↔
          Selected ⟨0x1000, 4, 4⟩ row column)) ∧
      ShowsText w.screen.cells 3 13 (wide "07060504 ") := by
  have hrun : (runVisits (deskAdapters deskMap) 3 deskState
      (desk [charKey '4', charKey 'g', ⟨nxUiScanRight, 0⟩] [0x1001])).map (fun p =>
        (p.1.cursorState, cellText 4 (deskTerminal.valueAt p.2.memory p.1 0x1004 4).1
          (deskTerminal.valueAt p.2.memory p.1 0x1004 4).2)) =
      some (⟨0x1000, 4, 4⟩, wide "07060504 ") := by
    decide +kernel
  obtain ⟨⟨s, w⟩, hvisit, hs⟩ := Option.map_eq_some_iff.1 hrun
  obtain ⟨hcursor, htext⟩ := Prod.mk.inj hs
  obtain ⟨hhighlight, hcell, -⟩ := highlight_is_cursor (desk_drives deskMap) 3 deskState s _ w hvisit
  have hshows := hcell (by rw [hcursor])
  unfold getCellPosition pageCoreGetCurrentAddress at hshows
  rw [hcursor] at hhighlight hshows
  refine ⟨s, w, hvisit, hcursor, hhighlight, ?_⟩
  rw [← htext]
  exact hshows

end UefiNexus
