/-
  The places on the page.

  The strokes of the grid lie in the rows 3 to 18, a cell between the columns 4
  and 51, apart from the prefix, the preview and the other cells
  (`cell_apart_line`, `cell_unique`).  So a position on a cell shows that cell
  (`grid_cell`), and painting the cell the cursor leaves and the cell it enters
  over the grid gives the grid of the new cursor (`grid_moved`).
-/
import UefiNexus.Proof.Drawing

namespace UefiNexus

open Grid

variable {W M : Type} {T : Terminal W M} {e : M} {pageState : PageMemPageState}
  {row column : ℕ}

/-! ## Positions -/

theorem toNat_getCellPosition (hw : WidthOk pageState.cursorState.width) {offset : NxUintn}
    (hlt : offset.toNat < 256) :
    (getCellPosition pageState offset).1.toNat =
      4 + offset.toNat % 16 / pageState.cursorState.width.toNat *
        (pageState.cursorState.width.toNat * 2 + 1) ∧
    (getCellPosition pageState offset).2.toNat = 3 + offset.toNat / 16 := by
  have hrow : cols / pageState.cursorState.width * pageState.cursorState.width = 16 := by
    obtain h | h | h | h := hw <;> rw [h] <;> decide
  have hle := hw.toNat_le
  have hcell : (pageState.cursorState.width.toNat * 2 % 2 ^ 64 + 1) % 2 ^ 64 =
      pageState.cursorState.width.toNat * 2 + 1 := by
    omega
  have hbound : offset.toNat % 16 / pageState.cursorState.width.toNat *
      (pageState.cursorState.width.toNat * 2 + 1) ≤ 48 := by
    obtain h | h | h | h := hw
    all_goals
      rw [h]
      simp only [BitVec.reduceToNat]
      omega
  simp only [getCellPosition, pageCoreGetCellDisplayWidth, hrow, pageMemDataRow, BitVec.toNat_add,
    BitVec.toNat_mul, BitVec.toNat_udiv, BitVec.toNat_umod, BitVec.reduceToNat]
  rw [hcell, Nat.mod_eq_of_lt (by omega), Nat.mod_eq_of_lt (by omega)]
  exact ⟨rfl, Nat.mod_eq_of_lt (by omega)⟩

/-- The text of a cell on the screen. -/
theorem length_cellStroke (hw : WidthOk pageState.cursorState.width) (offset : NxUintn)
    (highlight : NxBool) :
    (T.cellStroke e pageState offset highlight).text.length =
      pageState.cursorState.width.toNat * 2 + 1 := by
  obtain ⟨hplain, hlength⟩ := cellText_spec hw
    (T.valueAt e pageState (pageState.cursorState.address + offset) pageState.cursorState.width).1
    (T.valueAt e pageState (pageState.cursorState.address + offset) pageState.cursorState.width).2
  rw [← hlength, ← T.render_plain _ hplain]
  rfl

/-- The place of a cell. -/
theorem cell_covers (hw : WidthOk pageState.cursorState.width) {offset : NxUintn}
    (hlt : offset.toNat < 256) {highlight : NxBool}
    (h : (T.cellStroke e pageState offset highlight).Covers row column) :
    row = 3 + offset.toNat / 16 ∧
    4 + offset.toNat % 16 / pageState.cursorState.width.toNat *
      (pageState.cursorState.width.toNat * 2 + 1) ≤ column ∧
    column < 4 + offset.toNat % 16 / pageState.cursorState.width.toNat *
      (pageState.cursorState.width.toNat * 2 + 1) + (pageState.cursorState.width.toNat * 2 + 1) := by
  obtain ⟨hrow, hleft, hright⟩ := h
  obtain ⟨hcol, hrow'⟩ := toNat_getCellPosition hw hlt
  refine ⟨hrow.trans hrow', ?_, ?_⟩
  · rw [← hcol]; exact hleft
  · rw [← hcol, ← length_cellStroke hw offset highlight]
    exact hright

/-- **Cells do not overlap**: a position is on one cell at most. -/
theorem cell_unique (hw : WidthOk pageState.cursorState.width) {offset offset' : NxUintn}
    (hlt : offset.toNat < 256) (hlt' : offset'.toNat < 256)
    (hdvd : pageState.cursorState.width.toNat ∣ offset.toNat)
    (hdvd' : pageState.cursorState.width.toNat ∣ offset'.toNat) {highlight highlight' : NxBool}
    (h : (T.cellStroke e pageState offset highlight).Covers row column)
    (h' : (T.cellStroke e pageState offset' highlight').Covers row column) :
    offset = offset' := by
  obtain ⟨hrow, hleft, hright⟩ := cell_covers hw hlt h
  obtain ⟨hrow', hleft', hright'⟩ := cell_covers hw hlt' h'
  rw [← BitVec.toNat_inj]
  obtain heq | heq | heq | heq := hw
  all_goals
    rw [heq] at hleft hright hleft' hright' hdvd hdvd'
    simp only [BitVec.reduceToNat] at hleft hright hleft' hright' hdvd hdvd'
    omega

theorem row_of_line {offset : NxUintn} (hlt : offset.toNat < 256) :
    (pageMemDataRow + offset / cols).toNat = 3 + offset.toNat / 16 := by
  rw [BitVec.toNat_add, BitVec.toNat_udiv]
  exact Nat.mod_eq_of_lt (by simp only [pageMemDataRow, cols, BitVec.reduceToNat]; omega)

/-- The rows of the grid. -/
theorem step_row {offset : NxUintn} (hw : WidthOk pageState.cursorState.width)
    (hlt : offset.toNat < 256) {s : Stroke NxUiChar NxUintn}
    (hs : s ∈ T.stepStrokes e pageState offset) : s.row = 3 + offset.toNat / 16 := by
  have hline := row_of_line hlt
  obtain hs | hs := List.mem_append.1 hs
  · rw [Terminal.lineStrokes] at hs
    split_ifs at hs
    · obtain rfl | hs := List.mem_cons.1 hs
      · exact hline
      · rw [List.mem_singleton.1 hs]; exact hline
    · cases hs
  · rw [List.mem_singleton.1 hs]
    exact (toNat_getCellPosition hw hlt).2

/-- The text of a prefix. -/
theorem length_rowPrefix_le (offset : NxUintn) :
    (widened (buildRowPrefixString offset (uninitialized 32) 32) 32).length ≤ 3 := by
  rw [widened_eq _ (by decide), rowPrefix_string offset (by decide) (le_uninitialized _)]
  refine Nat.le_trans (List.length_take_le' ..) ?_
  rw [List.length_map]
  refine Nat.le_trans (List.length_take_le' ..) ?_
  rw [List.length_append, length_hexDigits]
  exact Nat.le_refl _

/-- The prefix and the preview are apart from the cells. -/
theorem cell_apart_line (hw : WidthOk pageState.cursorState.width) {offset offset' : NxUintn}
    (hlt : offset.toNat < 256) {highlight : NxBool}
    (h : (T.cellStroke e pageState offset highlight).Covers row column)
    {s : Stroke NxUiChar NxUintn} (hs : s ∈ T.lineStrokes e pageState offset') :
    ¬ s.Covers row column := by
  obtain ⟨-, hleft, hright⟩ := cell_covers hw hlt h
  have hbound : column < 54 := by
    obtain heq | heq | heq | heq := hw
    all_goals
      rw [heq] at hright
      simp only [BitVec.reduceToNat] at hright
      omega
  have hprefix : (T.render
      (widened (buildRowPrefixString offset' (uninitialized 32) 32) 32)).length ≤ 3 := by
    rw [T.render_plain _ (Terminal.rowPrefix_widened_plain _)]
    exact length_rowPrefix_le offset'
  rw [Terminal.lineStrokes] at hs
  split_ifs at hs
  · obtain rfl | hs := List.mem_cons.1 hs
    · rintro ⟨-, -, hlt⟩
      have hzero : (0 : NxUintn).toNat = 0 := rfl
      simp only [Terminal.stroke, hzero] at hlt
      omega
    · rw [List.mem_singleton.1 hs]
      rintro ⟨-, hle, -⟩
      exact absurd hbound (Nat.not_lt.2 hle)
  · cases hs

/-! ## The grid -/

theorem cellOffset_lt (hw : WidthOk pageState.cursorState.width) {k : ℕ}
    (hk : k ∈ List.range' 0 (cellCount pageState.cursorState.width)) :
    (cellOffset pageState.cursorState.width k).toNat < 256 ∧
      pageState.cursorState.width.toNat ∣ (cellOffset pageState.cursorState.width k).toNat := by
  have hk : k < cellCount pageState.cursorState.width := by simpa using hk
  have hmul := hw.cellCount_mul
  have hlt := Nat.mul_lt_mul_of_pos_right hk hw.powTwo.pos
  rw [toNat_cellOffset hw hk]
  exact ⟨by omega, Nat.dvd_mul_left ..⟩

theorem exists_cellOffset (hw : WidthOk pageState.cursorState.width) {offset : NxUintn}
    (hlt : offset.toNat < 256) (hdvd : pageState.cursorState.width.toNat ∣ offset.toNat) :
    ∃ k ∈ List.range' 0 (cellCount pageState.cursorState.width),
      cellOffset pageState.cursorState.width k = offset := by
  obtain ⟨k, hk⟩ := hdvd
  have hmul := hw.cellCount_mul
  have hlt' : k < cellCount pageState.cursorState.width := by
    by_contra hge
    have := Nat.mul_le_mul_right pageState.cursorState.width.toNat (Nat.le_of_not_lt hge)
    rw [Nat.mul_comm] at hk
    omega
  refine ⟨k, by simpa using hlt', ?_⟩
  rw [← BitVec.toNat_inj, toNat_cellOffset hw hlt', hk, Nat.mul_comm]

/-- **A position on a cell shows the cell.** -/
theorem grid_cell (hw : WidthOk pageState.cursorState.width) {offset : NxUintn}
    (hlt : offset.toNat < 256) (hdvd : pageState.cursorState.width.toNat ∣ offset.toNat)
    {highlight : NxBool} (h : (T.cellStroke e pageState offset highlight).Covers row column) :
    paintAll blank (T.gridStrokes e pageState) row column =
      (T.cellStroke e pageState offset (offset = pageState.cursorState.offset)).shows row column := by
  refine paintAll_eq ?_ (Or.inr ?_)
  · intro s hs hcovers
    obtain ⟨k, hk, hs⟩ := List.mem_flatMap.1 hs
    obtain ⟨hlt', hdvd'⟩ := cellOffset_lt hw hk
    obtain hs | hs := List.mem_append.1 hs
    · exact absurd hcovers (cell_apart_line hw hlt h hs)
    · rw [List.mem_singleton.1 hs] at hcovers ⊢
      rw [cell_unique hw hlt hlt' hdvd hdvd' h hcovers]
  · obtain ⟨k, hk, hoffset⟩ := exists_cellOffset hw hlt hdvd
    refine ⟨T.cellStroke e pageState offset (offset = pageState.cursorState.offset), ?_, h⟩
    refine List.mem_flatMap.2 ⟨k, hk, List.mem_append_right _ ?_⟩
    rw [hoffset]
    exact List.mem_singleton_self _

/-- The page state with the cursor at another offset. -/
def movedTo (pageState : PageMemPageState) (offset : NxUintn) : PageMemPageState :=
  { pageState with cursorState := { pageState.cursorState with offset := offset } }

/-- Offsets in the same cell have the same place. -/
theorem cell_samePlace (hw : WidthOk pageState.cursorState.width) {offset offset' : NxUintn}
    (hlt : offset.toNat < 256) (hlt' : offset'.toNat < 256)
    (hsame : offset.toNat / pageState.cursorState.width.toNat =
      offset'.toNat / pageState.cursorState.width.toNat) {highlight highlight' : NxBool}
    (h : (T.cellStroke e pageState offset highlight).Covers row column) :
    (T.cellStroke e pageState offset' highlight').Covers row column := by
  obtain ⟨hcol, hrow⟩ := toNat_getCellPosition hw hlt
  obtain ⟨hcol', hrow'⟩ := toNat_getCellPosition hw hlt'
  have hplace : offset.toNat / 16 = offset'.toNat / 16 ∧
      offset.toNat % 16 / pageState.cursorState.width.toNat =
        offset'.toNat % 16 / pageState.cursorState.width.toNat := by
    obtain heq | heq | heq | heq := hw
    all_goals
      rw [heq] at hsame ⊢
      simp only [BitVec.reduceToNat] at hsame ⊢
      omega
  rw [Stroke.Covers, length_cellStroke hw] at h ⊢
  simp only [Terminal.cellStroke, Terminal.stroke, hcol, hrow, hplace] at h
  simp only [Terminal.cellStroke, Terminal.stroke, hcol', hrow']
  exact h

/-- Off the cell the cursor leaves and the cell it enters, the steps of the two
    grids paint the same. -/
theorem grid_elsewhere {offset : NxUintn}
    (hold : ¬ (T.cellStroke e pageState pageState.cursorState.offset false).Covers row column)
    (hnew : ¬ (T.cellStroke e pageState offset true).Covers row column) :
    paintAll blank (T.gridStrokes e pageState) row column =
      paintAll blank (T.gridStrokes e (movedTo pageState offset)) row column := by
  refine paintAll_flatMap_congr (fun k _ cells => ?_) blank
  show paintAll cells (T.stepStrokes e pageState (cellOffset pageState.cursorState.width k)) row
      column =
    paintAll cells (T.stepStrokes e (movedTo pageState offset)
      (cellOffset pageState.cursorState.width k)) row column
  generalize cellOffset pageState.cursorState.width k = x
  show paintAll cells (T.lineStrokes e pageState x ++
      [T.cellStroke e pageState x (x = pageState.cursorState.offset)]) row column =
    paintAll cells (T.lineStrokes e pageState x ++
      [T.cellStroke e pageState x (x = offset)]) row column
  by_cases hcovers : (T.cellStroke e pageState x false).Covers row column
  · have hlow : decide (x = pageState.cursorState.offset) = false :=
      decide_eq_false fun h => hold (h ▸ hcovers)
    have hlow' : decide (x = offset) = false := decide_eq_false fun h => hnew (h ▸ hcovers)
    rw [hlow, hlow']
  · rw [paintAll_append_right, paintAll_append_right]
    · intro s hs; rw [List.mem_singleton.1 hs]; exact hcovers
    · intro s hs; rw [List.mem_singleton.1 hs]; exact hcovers

/-- **The cursor moves to a cell**: painting the cell it leaves and the cell it
    enters over the grid gives the grid of the new cursor, if it leaves a cell or
    enters the one it was inside. -/
theorem grid_moved (hw : WidthOk pageState.cursorState.width)
    (hlt : pageState.cursorState.offset.toNat < 256) {offset : NxUintn}
    (hlt' : offset.toNat < 256) (hdvd' : pageState.cursorState.width.toNat ∣ offset.toNat)
    (hfrom : pageState.cursorState.width.toNat ∣ pageState.cursorState.offset.toNat ∨
      pageState.cursorState.offset.toNat / pageState.cursorState.width.toNat =
        offset.toNat / pageState.cursorState.width.toNat)
    (hne : offset ≠ pageState.cursorState.offset) {cells : Cells NxUiChar NxUintn}
    (hcells : cells row column = paintAll blank (T.gridStrokes e pageState) row column) :
    paintAll cells
      [T.cellStroke e pageState pageState.cursorState.offset false,
        T.cellStroke e pageState offset true] row column =
      paintAll blank (T.gridStrokes e (movedTo pageState offset)) row column := by
  by_cases hnew : (T.cellStroke e pageState offset true).Covers row column
  · have hhigh : decide (offset = (movedTo pageState offset).cursorState.offset) = true :=
      decide_eq_true rfl
    rw [@grid_cell _ _ T e (movedTo pageState offset) _ _ hw _ hlt' hdvd' _ hnew, hhigh, paintAll_cons]
    refine paintAll_eq ?_ (Or.inr ⟨_, List.mem_singleton_self _, hnew⟩)
    intro s hs _
    rw [List.mem_singleton.1 hs]
    rfl
  by_cases hold : (T.cellStroke e pageState pageState.cursorState.offset false).Covers row column
  · obtain hdvd | hsame := hfrom
    swap
    · exact absurd (cell_samePlace hw hlt hlt' hsame hold) hnew
    rw [@grid_cell _ _ T e (movedTo pageState offset) _ _ hw _ hlt hdvd _ hold]
    refine paintAll_eq ?_ (Or.inr ⟨_, List.mem_cons_self .., hold⟩)
    intro s hs hcovers
    obtain rfl | hs := List.mem_cons.1 hs
    · have hlow : decide (pageState.cursorState.offset =
          (movedTo pageState offset).cursorState.offset) = false :=
        decide_eq_false fun h => hne h.symm
      rw [hlow]
      rfl
    · rw [List.mem_singleton.1 hs] at hcovers
      exact absurd hcovers hnew
  have hapart : ∀ s ∈ [T.cellStroke e pageState pageState.cursorState.offset false,
      T.cellStroke e pageState offset true], ¬ s.Covers row column := by
    intro s hs
    obtain rfl | hs := List.mem_cons.1 hs
    · exact hold
    · rw [List.mem_singleton.1 hs]; exact hnew
  rw [paintAll_apart hapart, hcells]
  exact grid_elsewhere hold hnew

/-! ## The information row -/

/-- The length of the information line depends on the width alone. -/
theorem length_infoText {c c' : PageMemCursorState} (h : c.width = c'.width) :
    (infoText c).length = (infoText c').length := by
  simp only [infoText, List.length_append, length_hexDigits, h]

/-- The information rows of two cursors of the same width cover the same columns. -/
theorem info_covers {pageState' : PageMemPageState}
    (h : pageState.cursorState.width = pageState'.cursorState.width)
    {s : Stroke NxUiChar NxUintn} (hs : s ∈ T.infoStrokes e pageState)
    (hcovers : s.Covers row column) :
    ∃ t ∈ T.infoStrokes e pageState', t.Covers row column := by
  have hlength : (T.render
      (widened (buildInfoString pageState (uninitialized 128) 128) 128)).length =
      (T.render (widened (buildInfoString pageState' (uninitialized 128) 128) 128)).length := by
    rw [T.render_plain _ (Terminal.info_widened_plain _), T.render_plain _ (Terminal.info_widened_plain _),
      widened_eq _ (by decide), widened_eq _ (by decide),
      infoString_string pageState (by decide) (le_uninitialized _),
      infoString_string pageState' (by decide) (le_uninitialized _)]
    simp only [List.length_map, List.length_take, length_infoText h]
  rw [Terminal.infoStrokes] at hs ⊢
  obtain rfl | hs := List.mem_cons.1 hs
  · exact ⟨_, List.mem_cons_self .., hcovers⟩
  · rw [List.mem_singleton.1 hs] at hcovers
    refine ⟨_, List.mem_cons_of_mem _ (List.mem_singleton_self _), ?_⟩
    simp only [Stroke.Covers, Terminal.stroke, hlength] at hcovers ⊢
    exact hcovers

end UefiNexus
