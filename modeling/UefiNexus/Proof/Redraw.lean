/-
  Incremental drawing agrees with full drawing.

  When the loop awaits a key, the screen shows in the rows of the grid and in the
  information row what a redraw would put there (`Shown`).  A key either sets the
  redraw flag, or leaves everything alone, or moves the cursor on the fast path
  (`handleKeyPress_noRedraw`).  The fast path repaints the cell at the offset the
  cursor leaves and the cell it enters.  That is right if the cursor was on a
  cell, or enters the cell it was inside (`fastPath_shown`); otherwise the cell it
  was inside is left with the bytes from the cursor on.
-/
import UefiNexus.Proof.Cursor
import UefiNexus.Proof.Picture

namespace UefiNexus

open Grid

variable {W M : Type} {T : Terminal W M} {a : AdapterManager W} {e : M}
  {pageState pageState' : PageMemPageState} {row column : ℕ} {w w' : W}

/-! ## The rows of a page -/

theorem not_covers_of_row {s : Stroke NxUiChar NxUintn} (h : row ≠ s.row) :
    ¬ s.Covers row column := fun hc => h hc.1

/-- What a page shows in the rows of the grid and in the information row. -/
def shown (T : Terminal W M) (e : M) (pageState : PageMemPageState) (row column : ℕ) :
    Option (NxUiChar × NxUintn) :=
  if row = 19 then paintAll blank (T.infoStrokes e pageState) row column
  else paintAll blank (T.gridStrokes e pageState) row column

theorem grid_rows (hw : WidthOk pageState.cursorState.width) {s : Stroke NxUiChar NxUintn}
    (hs : s ∈ T.gridStrokes e pageState) : s.row < 19 := by
  obtain ⟨k, hk, hs⟩ := List.mem_flatMap.1 hs
  have hlt := (cellOffset_lt hw hk).1
  rw [step_row hw hlt hs]
  omega

theorem info_rows {s : Stroke NxUiChar NxUintn} (hs : s ∈ T.infoStrokes e pageState) :
    s.row = 19 := by
  rw [Terminal.infoStrokes] at hs
  obtain rfl | hs := List.mem_cons.1 hs
  · rfl
  · rw [List.mem_singleton.1 hs]; rfl

theorem help_rows {s : Stroke NxUiChar NxUintn} (hs : s ∈ T.helpStrokes e) : 20 ≤ s.row := by
  simp only [Terminal.helpStrokes, List.mem_cons, List.not_mem_nil, or_false] at hs
  obtain rfl | rfl | rfl | rfl := hs <;> exact Nat.le_of_ble_eq_true rfl

/-- The strokes of a page, row by row. -/
theorem page_shown (hw : WidthOk pageState.cursorState.width) (attr : NxUintn) (hlow : 3 ≤ row)
    (hhigh : row ≤ 19) :
    paintAll blank (T.pageStrokes e pageState attr) row column =
      shown T e pageState row column := by
  have hframe : ∀ s ∈ T.frameStrokes pageState attr, ¬ s.Covers row column := by
    intro s hs
    rw [Terminal.frameStrokes] at hs
    obtain rfl | hs := List.mem_cons.1 hs
    · exact not_covers_of_row (Nat.ne_of_gt (Nat.lt_of_lt_of_le (by decide : 0 < 3) hlow))
    · rw [List.mem_singleton.1 hs]
      exact not_covers_of_row (Nat.ne_of_gt (Nat.lt_of_lt_of_le (by decide : 1 < 3) hlow))
  have hheader : ∀ s ∈ [T.headerStroke pageState], ¬ s.Covers row column := by
    intro s hs
    rw [List.mem_singleton.1 hs]
    exact not_covers_of_row (Nat.ne_of_gt (Nat.lt_of_lt_of_le (by decide : 2 < 3) hlow))
  have hhelp : ∀ s ∈ T.helpStrokes e, ¬ s.Covers row column := by
    intro s hs
    have hrow := help_rows hs
    exact not_covers_of_row (by omega)
  rw [Terminal.pageStrokes, paintAll_append_left hframe, paintAll_append_left hheader, shown]
  split_ifs with hinfo
  · have hgrid : ∀ s ∈ T.gridStrokes e pageState, ¬ s.Covers row column := by
      intro s hs
      have := grid_rows hw hs
      exact not_covers_of_row (by omega)
    rw [paintAll_append_left hgrid, paintAll_append_left hhelp]
  · refine paintAll_append_right fun s hs => ?_
    obtain hs | hs := List.mem_append.1 hs
    · exact hhelp s hs
    · exact not_covers_of_row (by rw [info_rows hs]; exact hinfo)

/-! ## What is shown when a key is awaited -/

/-- The screen shows the page in the rows of the grid and in the information row,
    and the attribute in use is the normal one. -/
structure Shown (T : Terminal W M) (pageState : PageMemPageState) (w : W) : Prop where
  attr : (T.screen w).attr = pageMemAttrNormal
  cells : ∀ row column, 3 ≤ row → row ≤ 19 →
    (T.screen w).cells row column = shown T (T.env w) pageState row column

/-- A redraw shows the page. -/
theorem drawPage_shown (h : T.Drives a) (hw : WidthOk pageState.cursorState.width) (w : W) :
    ∃ w', pageMemViewDrawPage a.tui a.memory pageState w = (some (), w') ∧
      T.env w' = T.env w ∧ Shown T pageState w' := by
  obtain ⟨w', hdraw, henv, hattr, hcells⟩ := h.drawPage_spec pageState hw w
  refine ⟨w', hdraw, henv, hattr, fun row column hlow hhigh => ?_⟩
  rw [hcells, henv, page_shown hw _ hlow hhigh]

/-- The draws of the fast path. -/
def fastPath (a : AdapterManager W) (pageState : PageMemPageState) (oldOffset : NxUintn) :
    Prog W Unit := do
  pageMemViewUpdateCell a.tui a.memory pageState oldOffset false
  pageMemViewUpdateCell a.tui a.memory pageState pageState.cursorState.offset true
  pageMemViewUpdateInfo a.tui pageState

/-- The cursor leaves a cell, or enters the one it was inside. -/
def LeavesCell (c : PageMemCursorState) (offset : NxUintn) : Prop :=
  c.width.toNat ∣ c.offset.toNat ∨ c.offset.toNat / c.width.toNat = offset.toNat / c.width.toNat

/-- **The fast path shows the page with the moved cursor.** -/
theorem fastPath_shown (h : T.Drives a) (hw : WidthOk pageState.cursorState.width)
    (hlt : pageState.cursorState.offset.toNat < 256) {offset : NxUintn}
    (hfrom : LeavesCell pageState.cursorState offset)
    (hcell' : OnCell (movedTo pageState offset).cursorState)
    (hne : offset ≠ pageState.cursorState.offset) (hshown : Shown T pageState w) :
    ∃ w', fastPath a (movedTo pageState offset) pageState.cursorState.offset w = (some (), w') ∧
      Shown T (movedTo pageState offset) w' := by
  have hpaint : T.Draws (T.env w) pageMemAttrNormal pageMemAttrNormal
      ([T.cellStroke (T.env w) pageState pageState.cursorState.offset false,
        T.cellStroke (T.env w) pageState offset true] ++
          T.infoStrokes (T.env w) (movedTo pageState offset))
      (fastPath a (movedTo pageState offset) pageState.cursorState.offset) () :=
    (h.draws_cell (movedTo pageState offset) hw _ _).bind <|
      (h.draws_cell (movedTo pageState offset) hw _ _).bind (h.draws_info _)
  obtain ⟨w', hrun, henv, hattr, hcells⟩ := hpaint w rfl hshown.attr
  refine ⟨w', hrun, hattr, fun row column hlow hhigh => ?_⟩
  have hlt' := hcell'.offset_lt hw
  have hbefore := hshown.cells row column hlow hhigh
  rw [hcells, henv]
  rw [shown] at hbefore ⊢
  split_ifs at hbefore ⊢ with hinfo
  · have hcells : ∀ s ∈ [T.cellStroke (T.env w) pageState pageState.cursorState.offset false,
        T.cellStroke (T.env w) pageState offset true], ¬ s.Covers row column := by
      intro s hs
      obtain rfl | hs := List.mem_cons.1 hs
      · intro hc
        have := (cell_covers hw hlt hc).1
        omega
      · rw [List.mem_singleton.1 hs]
        intro hc
        have := (cell_covers hw hlt' hc).1
        omega
    have hwidth : pageState.cursorState.width = (movedTo pageState offset).cursorState.width := rfl
    rw [paintAll_append_left hcells, paintAll_or, hbefore, ← paintAll_or]
    exact paintAll_over fun s hs hc => info_covers hwidth hs hc
  · rw [paintAll_append_right fun s hs => not_covers_of_row (by rw [info_rows hs]; exact hinfo)]
    exact grid_moved hw hlt hlt' hcell'.dvd hfrom hne hbefore

/-! ## Keys that do not ask for a redraw -/

/-- A key after which no redraw is due did nothing, or moved the cursor on the
    fast path. -/
theorem handleKeyPress_noRedraw {key : NxUiKey} {status : NxStatus}
    (h : pageMemControllerHandleKeyPress key pageState a w = (some (status, pageState'), w'))
    (hflag : pageState'.needsRedraw = false) :
    isReported status = false ∧
    (pageState' = pageState ∧ w' = w ∨
      key.scanCode ≠ nxUiScanEsc ∧ keyDelta key pageState.cursorState.width ≠ 0 ∧
      ∃ offset, offset ≠ pageState.cursorState.offset ∧
        offset = (pageCoreMoveCursor pageState.cursorState
          (keyDelta key pageState.cursorState.width)).offset ∧
        pageState' = { movedTo pageState offset with needsRedraw := false } ∧
        fastPath a (movedTo pageState offset) pageState.cursorState.offset w = (some (), w')) := by
  cases handleKeyPress_run h with
  | esc => exact ⟨rfl, Or.inl ⟨rfl, rfl⟩⟩
  | arrow hesc hdelta hmove =>
    refine ⟨rfl, ?_⟩
    rw [moveCursorByKey] at hmove
    dsimp only at hmove
    by_cases hmoved : (pageCoreMoveCursor pageState.cursorState
        (keyDelta key pageState.cursorState.width)).offset ≠ pageState.cursorState.offset
    · rw [if_pos hmoved] at hmove
      obtain ⟨_, w₁, h₁, hmove⟩ := Prog.bind_eq_some.1 hmove
      obtain ⟨_, w₂, h₂, hmove⟩ := Prog.bind_eq_some.1 hmove
      obtain ⟨_, w₃, h₃, hmove⟩ := Prog.bind_eq_some.1 hmove
      obtain ⟨hmove, rfl⟩ := Prog.pure_eq_some.1 hmove
      cases hmove
      refine Or.inr ⟨hesc, hdelta, _, hmoved, rfl, rfl, ?_⟩
      exact Prog.bind_eq_some.2 ⟨_, w₁, h₁, Prog.bind_eq_some.2 ⟨_, w₂, h₂, h₃⟩⟩
    · rw [if_neg hmoved] at hmove
      obtain ⟨hmove, rfl⟩ := Prog.pure_eq_some.1 hmove
      cases hmove
      refine Or.inl ⟨?_, rfl⟩
      show movedTo pageState (pageCoreMoveCursor pageState.cursorState
        (keyDelta key pageState.cursorState.width)).offset = pageState
      rw [not_not.1 hmoved]
      rfl
  | edit => cases hflag
  | cancelled => cases hflag
  | goto => cases hflag
  | page => exact ⟨rfl, Or.inl ⟨rfl, rfl⟩⟩
  | moves hmove htype =>
    rw [(updatePageType_sameView htype).redraw, hmove.state.2.1] at hflag
    cases hflag
  | ranges => cases hflag
  | width => cases hflag
  | unknown => exact ⟨rfl, Or.inl ⟨rfl, rfl⟩⟩

/-! ## Runs -/

/-- The key is an arrow. -/
def IsArrow (key : NxUiKey) : Prop :=
  key.scanCode = nxUiScanUp ∨ key.scanCode = nxUiScanDown ∨ key.scanCode = nxUiScanLeft ∨
    key.scanCode = nxUiScanRight

theorem isArrow_of_keyDelta {key : NxUiKey} {width : NxUintn} (h : keyDelta key width ≠ 0) :
    IsArrow key := by
  rw [keyDelta] at h
  split_ifs at h with hup hdown hleft hright
  · exact Or.inl hup
  · exact Or.inr (Or.inl hdown)
  · exact Or.inr (Or.inr (Or.inl hleft))
  · exact Or.inr (Or.inr (Or.inr hright))
  · exact absurd rfl h

/-- The next key, if it is an arrow, moves the cursor from a cell, or to the one
    it is inside. -/
def ArrowLeavesCell (a : AdapterManager W) (pageState : PageMemPageState) (w : W) : Prop :=
  ∀ key w₁, a.tui.readKey w = (some key, w₁) → IsArrow key →
    LeavesCell pageState.cursorState
      (pageCoreMoveCursor pageState.cursorState (keyDelta key pageState.cursorState.width)).offset

/-- What a key that is served, and the redraw after it, leave on the screen. -/
theorem serveKey_shown {pageState'' : PageMemPageState} {w'' : W} (h : T.Drives a)
    (hw : WidthOk pageState.cursorState.width) (hlt : pageState.cursorState.offset.toNat < 256)
    (hshown : Shown T pageState w) (harrow : ArrowLeavesCell a pageState w)
    (hserve : serveKey a pageState w = (some (.inl pageState'), w'))
    (htop : redrawIfNeeded a pageState' w' = (some pageState'', w'')) :
    Shown T pageState'' w'' := by
  obtain ⟨key, w₁, status, w₂, hread, hpress, hreport⟩ := serveKey_eq_inl hserve
  have hw' := (handleKeyPress_steps hpress).2.widthOk hw
  rw [redrawIfNeeded] at htop
  by_cases hflag : pageState'.needsRedraw = true
  · obtain ⟨w₃, hdraw, -, hattr, hcells⟩ := drawPage_shown h hw' w'
    rw [if_pos hflag, Prog.bind_of_some hdraw] at htop
    obtain ⟨rfl, rfl⟩ := Prog.pure_eq_some.1 htop
    exact ⟨hattr, hcells⟩
  rw [if_neg hflag] at htop
  obtain ⟨rfl, rfl⟩ := Prog.pure_eq_some.1 htop
  obtain ⟨hscreen, henv⟩ := h.readKey w key w₁ hread
  have hshown₁ : Shown T pageState w₁ := by
    refine ⟨by rw [hscreen]; exact hshown.attr, ?_⟩
    rw [hscreen, henv]
    exact hshown.cells
  obtain ⟨hquiet, hdone⟩ := handleKeyPress_noRedraw hpress (Bool.eq_false_of_not_eq_true hflag)
  obtain rfl : w' = w₂ := by
    obtain ⟨hloud, -⟩ | ⟨-, heq⟩ := hreport
    · rw [hquiet] at hloud; cases hloud
    · exact heq
  obtain ⟨rfl, rfl⟩ | ⟨-, hdelta, offset, hne, hoffset, rfl, hrun⟩ := hdone
  · exact hshown₁
  have hfrom : LeavesCell pageState.cursorState offset := by
    rw [hoffset]
    exact harrow key w₁ hread (isArrow_of_keyDelta hdelta)
  have hcell' : OnCell (movedTo pageState offset).cursorState := by
    rw [hoffset]
    exact moveCursor_onCell hw _
  obtain ⟨w₃, hrun', hattr, hcells⟩ := fastPath_shown h hw hlt hfrom hcell' hne hshown₁
  rw [hrun] at hrun'
  obtain ⟨-, rfl⟩ := Prod.mk.inj hrun'
  exact ⟨hattr, hcells⟩

/-- **Incremental drawing agrees with full drawing**: if no arrow moves the cursor
    from inside a cell to another cell, then whenever a key is awaited a redraw of
    the page would leave the rows of the grid and the information row as they
    are. -/
theorem redraw_changes_nothing (h : T.Drives a) (n : ℕ) {s : PageMemPageState} {v : W}
    (hvisit : runVisits a n pageState w = some (s, v))
    (harrow : ∀ k < n, ∀ s₁ v₁, runVisits a k pageState w = some (s₁, v₁) → ArrowLeavesCell a s₁ v₁) :
    ∃ v', pageMemViewDrawPage a.tui a.memory s v = (some (), v') ∧
      ∀ row column, pageMemDataRow.toNat ≤ row → row ≤ pageMemInfoRow.toNat →
        (T.screen v).cells row column = (T.screen v').cells row column := by
  have hshown : ∀ n s v, runVisits a n pageState w = some (s, v) →
      (∀ k < n, ∀ s₁ v₁, runVisits a k pageState w = some (s₁, v₁) → ArrowLeavesCell a s₁ v₁) →
      Shown T s v := by
    intro n
    induction n with
    | zero =>
      intro s v hvisit _
      obtain ⟨status, s₁, v₁, hinit, hok, htop⟩ := runVisits_zero.1 hvisit
      obtain ⟨_, _, _, -, -, -, hcursor, -, hflag, -⟩ := pageMemControllerInit_success hinit hok
      have hw : WidthOk s₁.cursorState.width := by
        rw [hcursor]; exact Or.inl rfl
      obtain ⟨v₂, hdraw, -, hattr, hcells⟩ := drawPage_shown h hw v₁
      rw [redrawIfNeeded, if_pos hflag, Prog.bind_of_some hdraw] at htop
      obtain ⟨rfl, rfl⟩ := Prog.pure_eq_some.1 htop
      exact ⟨hattr, hcells⟩
    | succ n ih =>
      intro s v hvisit harrow
      obtain ⟨s₁, v₁, s₂, v₂, hvisit₁, hserve, htop⟩ := runVisits_succ.1 hvisit
      exact serveKey_shown h (runVisits_widthOk a pageState w n s₁ v₁ hvisit₁)
        (runVisits_offset_lt a pageState w n s₁ v₁ hvisit₁)
        (ih s₁ v₁ hvisit₁ fun k hk => harrow k (Nat.lt_succ_of_lt hk))
        (harrow n (Nat.lt_succ_self n) s₁ v₁ hvisit₁) hserve htop
  have hs := hshown n s v hvisit harrow
  obtain ⟨v', hdraw, henv, hs'⟩ := drawPage_shown h (runVisits_widthOk a pageState w n s v hvisit) v
  refine ⟨v', hdraw, fun row column hlow hhigh => ?_⟩
  rw [hs.cells row column hlow hhigh, hs'.cells row column hlow hhigh, henv]

/-- A run with a width of 4 and an arrow to the right. -/
theorem redraw_changes_nothing_arrow :
    ∃ s v v', runVisits (deskAdapters deskMap) 2 deskState
        (desk [charKey '4', ⟨nxUiScanRight, 0⟩] []) = some (s, v) ∧
      s.cursorState = ⟨0x1000, 4, 4⟩ ∧
      pageMemViewDrawPage (deskAdapters deskMap).tui (deskAdapters deskMap).memory s v =
        (some (), v') ∧
      ∀ row column, 3 ≤ row → row ≤ 19 → v.screen.cells row column = v'.screen.cells row column := by
  have hcursor : ∀ k < 3, (runVisits (deskAdapters deskMap) k deskState
      (desk [charKey '4', ⟨nxUiScanRight, 0⟩] [])).map (fun p => p.1.cursorState) =
        [⟨0x1000, 0, 1⟩, ⟨0x1000, 0, 4⟩, ⟨0x1000, 4, 4⟩][k]? := by
    decide +kernel
  obtain ⟨⟨s, v⟩, hvisit, hs⟩ := Option.map_eq_some_iff.1 (hcursor 2 (by decide))
  obtain ⟨v', hdraw, hcells⟩ := redraw_changes_nothing (desk_drives deskMap) 2 hvisit
    fun k hk s₁ v₁ hvisit₁ key v₂ _ _ => by
      have hoffset : s₁.cursorState.offset = 0 := by
        have h := hcursor k (Nat.lt_succ_of_lt hk)
        rw [hvisit₁] at h
        obtain rfl | rfl : k = 0 ∨ k = 1 := by omega
        · exact congrArg PageMemCursorState.offset (Option.some.inj h)
        · exact congrArg PageMemCursorState.offset (Option.some.inj h)
      left
      rw [hoffset]
      exact Nat.dvd_zero _
  exact ⟨s, v, v', hvisit, hs, hdraw, hcells⟩

/-- A width of 4, goto `0x1001`, and an arrow to the right: the cell at `0x1000`
    shows the bytes at `0x1001`. -/
theorem unaligned_cell_stays :
    ¬ ∀ n s v, runVisits (deskAdapters deskMap) n deskState
        (desk [charKey '4', charKey 'g', ⟨nxUiScanRight, 0⟩] [0x1001]) = some (s, v) →
      ∃ v', pageMemViewDrawPage (deskAdapters deskMap).tui (deskAdapters deskMap).memory s v =
          (some (), v') ∧
        ∀ row column, 3 ≤ row → row ≤ 19 →
          v.screen.cells row column = v'.screen.cells row column := by
  intro h
  have hshown : (runVisits (deskAdapters deskMap) 3 deskState
      (desk [charKey '4', charKey 'g', ⟨nxUiScanRight, 0⟩] [0x1001])).map (fun p =>
        (p.2.screen.cells 3 5, (pageMemViewDrawPage (deskAdapters deskMap).tui
          (deskAdapters deskMap).memory p.1 p.2).2.screen.cells 3 5)) =
      some (some (L '4', pageMemAttrNormal), some (L '3', pageMemAttrNormal)) := by
    decide +kernel
  obtain ⟨⟨s, v⟩, hvisit, hshown⟩ := Option.map_eq_some_iff.1 hshown
  obtain ⟨v', hdraw, hcells⟩ := h 3 s v hvisit
  have hsame := hcells 3 5 (by decide) (by decide)
  rw [hdraw] at hshown
  obtain ⟨hold, hnew⟩ := Prod.mk.inj hshown
  rw [hold, hnew] at hsame
  exact absurd hsame (by decide)

end UefiNexus
