/-
  Nothing but the page is on the screen.

  Prompts, lists of ranges and reports may leave anything on the screen.  Each is
  followed by a redraw before the next key, and the fast path stays in the grid
  and the information row (`Framed`); so whenever a key is awaited, the rows
  around the grid are those of the page, and the others are empty.
-/
import UefiNexus.Proof.Highlight
import UefiNexus.Proof.Literal

namespace UefiNexus

open Grid

variable {W M : Type} {T : Terminal W M} {a : AdapterManager W} {e : M}
  {s : PageMemPageState} {row column : ℕ} {w : W}

/-! ## Around the grid -/

/-- Off the grid and the information row, a page is its frame, its header and its
    help. -/
theorem page_around (hw : WidthOk s.cursorState.width) (attr : NxUintn)
    (hrow : row < 3 ∨ 19 < row) : paintAll blank (T.pageStrokes e s attr) row column =
      paintAll blank (T.frameStrokes s attr ++ ([T.headerStroke s] ++ T.helpStrokes e)) row column := by
  have hgrid : ∀ t ∈ T.gridStrokes e s, ¬ t.Covers row column := by
    intro t ht
    obtain ⟨k, hk, ht'⟩ := List.mem_flatMap.1 ht
    have hdata := step_row hw (cellOffset_lt hw hk).1 ht'
    have hlt := grid_rows hw ht
    exact not_covers_of_row (by omega)
  have hinfo : ∀ t ∈ T.infoStrokes e s, ¬ t.Covers row column := by
    intro t ht
    have hat := info_rows ht
    exact not_covers_of_row (by omega)
  unfold Terminal.pageStrokes
  rw [paintAll_append, paintAll_append, paintAll_append_left hgrid, paintAll_append_right hinfo,
    paintAll_append, paintAll_append]

/-- The page of a moved cursor is the same there. -/
theorem page_moved (hw : WidthOk s.cursorState.width) (attr : NxUintn) (offset : NxUintn)
    (hrow : row < 3 ∨ 19 < row) :
    paintAll blank (T.pageStrokes e (movedTo s offset) attr) row column =
      paintAll blank (T.pageStrokes e s attr) row column := by
  have hw' : WidthOk (movedTo s offset).cursorState.width := hw
  rw [page_around hw attr hrow, page_around hw' attr hrow]
  rfl

/-- Off the grid and the information row, the screen shows the page. -/
structure Framed (T : Terminal W M) (s : PageMemPageState) (w : W) : Prop where
  attr : (T.screen w).attr = pageMemAttrNormal
  cells : ∃ attr, ∀ row column, row < 3 ∨ 19 < row →
    (T.screen w).cells row column = paintAll blank (T.pageStrokes (T.env w) s attr) row column

/-- **Every screen of a run** shows the page there. -/
theorem framed_kept (h : T.Drives a) : KeptShown T a (Framed T) where
  redraw {s w} hw _ := by
    obtain ⟨w', hdraw, henv, hattr, hcells⟩ := h.drawPage_spec s hw w
    refine ⟨w', hdraw, hattr, (T.screen w).attr, fun row column _ => ?_⟩
    rw [hcells, henv]
    rfl
  congr := by
    rintro s w w' hscreen henv ⟨hattr, attr, hcells⟩
    rw [← hscreen] at hattr hcells
    rw [← henv] at hcells
    exact ⟨hattr, attr, hcells⟩
  moves {s w offset} hw hlt hcell' hframed := by
    obtain ⟨hattr, attr, hcells⟩ := hframed
    have hw' : WidthOk (movedTo s offset).cursorState.width := hw
    have hlt' := hcell'.offset_lt hw'
    have hpaint : T.Draws (T.env w) pageMemAttrNormal pageMemAttrNormal
        ([T.cellStroke (T.env w) s s.cursorState.offset false,
          T.cellStroke (T.env w) (movedTo s offset) offset true] ++
            T.infoStrokes (T.env w) (movedTo s offset))
        (fastPath a (movedTo s offset) s.cursorState.offset) () :=
      (h.draws_cell (movedTo s offset) hw _ _).bind <|
        (h.draws_cell (movedTo s offset) hw _ _).bind (h.draws_info _)
    obtain ⟨w', hrun, henv, hattr', hcells'⟩ := hpaint w rfl hattr
    refine ⟨w', hrun, hattr', attr, fun row column hrow => ?_⟩
    have hapart : ∀ t ∈ [T.cellStroke (T.env w) s s.cursorState.offset false,
        T.cellStroke (T.env w) (movedTo s offset) offset true] ++
          T.infoStrokes (T.env w) (movedTo s offset), ¬ t.Covers row column := by
      intro t ht hcovers
      rcases List.mem_append.1 ht with ht | ht
      · rcases List.mem_cons.1 ht with rfl | ht
        · have hat := (cell_covers hw hlt hcovers).1
          omega
        · rw [List.mem_singleton.1 ht] at hcovers
          have hat := (cell_covers hw' hlt' hcovers).1
          omega
      · have hinfo := info_rows ht
        have hat := hcovers.1
        omega
    rw [hcells', henv, paintAll_apart hapart, hcells row column hrow]
    exact (page_moved hw attr offset hrow).symm

/-- Nothing is painted below the help. -/
theorem page_below (hw : WidthOk s.cursorState.width) (attr : NxUintn) (hrow : 21 < row) :
    paintAll blank (T.pageStrokes e s attr) row column = none := by
  rw [page_around hw attr (Or.inr (by omega))]
  refine paintAll_apart fun t ht => not_covers_of_row ?_
  simp only [Terminal.frameStrokes, Terminal.helpStrokes, List.mem_append, List.mem_cons,
    List.not_mem_nil, or_false] at ht
  have hrows : t.row = 0 ∨ t.row = 1 ∨ t.row = 2 ∨ t.row = 20 ∨ t.row = 21 := by
    rcases ht with (rfl | rfl) | rfl | rfl | rfl | rfl | rfl
    · exact Or.inl rfl
    · exact Or.inr (Or.inl rfl)
    · exact Or.inr (Or.inr (Or.inl rfl))
    · exact Or.inr (Or.inr (Or.inr (Or.inl rfl)))
    · exact Or.inr (Or.inr (Or.inr (Or.inr rfl)))
    · exact Or.inr (Or.inr (Or.inr (Or.inl rfl)))
    · exact Or.inr (Or.inr (Or.inr (Or.inr rfl)))
  omega

/-! ## The screen -/

/-- **Nothing but the page is on the screen.**  Whenever a run awaits a key, on any
    adapters with a text terminal and whatever their prompts, lists and reports do
    to it, the characters of every row outside the grid are those of a redraw of
    the page state, and the rows below the help are empty. -/
theorem only_page_shown (h : T.Drives a) (n : ℕ) (s₀ s : PageMemPageState) (w₀ w : W)
    (hvisit : runVisits a n s₀ w₀ = some (s, w)) :
    ∃ w', pageMemViewDrawPage a.tui a.memory s w = (some (), w') ∧
      (∀ row column, row < pageMemDataRow.toNat ∨ pageMemInfoRow.toNat ≤ row →
        ((T.screen w).cells row column).map Prod.fst =
          ((T.screen w').cells row column).map Prod.fst) ∧
      ∀ row column, pageMemHelp2Row.toNat < row → (T.screen w).cells row column = none := by
  have hw := runVisits_widthOk a s₀ w₀ n s w hvisit
  obtain ⟨-, attr, hcells⟩ := (framed_kept h).of_visit h n s w hvisit
  have hpointed := runVisits_pointed h hvisit
  obtain ⟨w', hdraw, henv, -, hcells'⟩ := h.drawPage_spec s hw w
  refine ⟨w', hdraw, fun row column hrow => ?_, fun row column hrow => ?_⟩
  · have hrow : row < 3 ∨ 19 ≤ row := hrow
    have hpage : (T.screen w).cells row column =
        paintAll blank (T.pageStrokes (T.env w) s attr) row column := by
      by_cases hinfo : row = 19
      · rw [hinfo, hpointed.info column, page_shown hw attr (by decide) (by decide)]
        exact (if_pos rfl).symm
      · exact hcells row column (by omega)
    rw [hpage, hcells']
    exact map_fst_pageStrokes T _ _ _ row column
  · have hrow : 21 < row := hrow
    rw [hcells row column (Or.inr (by omega))]
    exact page_below hw attr hrow

/-- A goto prompt that is left with ESC. -/
theorem only_page_shown_prompt :
    ∃ s w w', runVisits (deskAdapters deskMap) 1 deskState (desk [charKey 'g'] []) = some (s, w) ∧
      pageMemViewDrawPage (deskAdapters deskMap).tui (deskAdapters deskMap).memory s w =
        (some (), w') ∧
      ∀ row column, 19 ≤ row → (w.screen.cells row column).map Prod.fst =
        (w'.screen.cells row column).map Prod.fst := by
  have hrun : (runVisits (deskAdapters deskMap) 1 deskState (desk [charKey 'g'] [])).isSome := by
    decide +kernel
  obtain ⟨⟨s, w⟩, hvisit⟩ := Option.isSome_iff_exists.1 hrun
  obtain ⟨w', hdraw, hrows, -⟩ := only_page_shown (desk_drives deskMap) 1 deskState s _ w hvisit
  exact ⟨s, w, w', hvisit, hdraw, fun row column hrow => hrows row column (Or.inr hrow)⟩

end UefiNexus
