/-
  The loops of the view are passes over the cells.

  With a supported width the two counted loops of the view end: they draw the
  headings of the columns, and the cells at the multiples of the width
  (`drawMemoryHeader_eq`, `drawMemoryRows_eq`).  A cell that is highlighted is
  one call that sets the highlight attribute, so a redraw highlights as many
  cells as the multiples of the width that are the cursor's offset.
-/
import Mathlib.Data.List.Nodup
import UefiNexus.Proof.Access
import UefiNexus.Proof.Calls

namespace UefiNexus

variable {W : Type} {a : AdapterManager W}

/-! ## The passes -/

/-- The offset of the cell number `k`. -/
def cellOffset (width : NxUintn) (k : ℕ) : NxUintn := BitVec.ofNat 64 (k * width.toNat)

/-- The number of cells of the page. -/
def cellCount (width : NxUintn) : ℕ := 256 / width.toNat

theorem WidthOk.cellCount_mul {width : NxUintn} (h : WidthOk width) :
    cellCount width * width.toNat = 256 := by
  obtain rfl | rfl | rfl | rfl := h <;> rfl

theorem WidthOk.cols_mul {width : NxUintn} (h : WidthOk width) :
    16 / width.toNat * width.toNat = 16 := by
  obtain rfl | rfl | rfl | rfl := h <;> rfl

theorem toNat_cellOffset {width : NxUintn} (h : WidthOk width) {k : ℕ} (hk : k < cellCount width) :
    (cellOffset width k).toNat = k * width.toNat := by
  have hlt : k * width.toNat < cellCount width * width.toNat :=
    Nat.mul_lt_mul_of_pos_right hk h.powTwo.pos
  rw [h.cellCount_mul] at hlt
  rw [cellOffset, BitVec.toNat_ofNat, Nat.mod_eq_of_lt (by omega)]

/-- The rows draw the cells in order. -/
theorem drawMemoryRows_eq (tui : TuiAdapterInterface W) (memory : MemoryAdapterInterface W)
    (pageState : PageMemPageState) (h : WidthOk pageState.cursorState.width) :
    drawMemoryRows tui memory pageState =
      Prog.each (fun k => drawMemoryStep tui memory pageState
        (cellOffset pageState.cursorState.width k))
        (List.range' 0 (cellCount pageState.cursorState.width)) := by
  have hle : cellCount pageState.cursorState.width ≤ pageSize.toNat := Nat.div_le_self _ _
  have := Prog.counted_eq_each (drawMemoryRowsFrom tui memory pageState)
    (drawMemoryStep tui memory pageState) pageSize h.cellCount_mul
    h.powTwo.pos (fun o => rfl) (fun n o => rfl) (cellCount pageState.cursorState.width)
    pageSize.toNat 0 (by omega) hle
  rw [Nat.zero_mul] at this
  exact this

/-- The text of the heading of a column. -/
def columnHeading (width offset : NxUintn) : List NxUiChar :=
  widened (pageCoreFormatOffsetHeader offset width (uninitialized cellStrMax) cellStrMax).1 cellStrMax

/-- The header outputs the headings in order. -/
theorem drawMemoryHeader_eq (tui : TuiAdapterInterface W) (pageState : PageMemPageState)
    (h : WidthOk pageState.cursorState.width) :
    drawMemoryHeader tui pageState = (do
      tui.setAttribute pageMemAttrNormal
      tui.setCursorPosition 4 pageMemHeaderRow
      Prog.each (fun k => tui.outputString (columnHeading pageState.cursorState.width
        (cellOffset pageState.cursorState.width k)))
        (List.range' 0 (16 / pageState.cursorState.width.toNat))) := by
  have hle : 16 / pageState.cursorState.width.toNat ≤ cols.toNat := Nat.div_le_self _ _
  have := Prog.counted_eq_each (drawMemoryHeaderFrom tui pageState.cursorState.width)
    (fun o => tui.outputString (columnHeading pageState.cursorState.width o)) cols h.cols_mul h.powTwo.pos (fun o => rfl) (fun n o => rfl)
    (16 / pageState.cursorState.width.toNat) cols.toNat 0 (by omega) hle
  rw [Nat.zero_mul] at this
  rw [drawMemoryHeader]
  exact congrArg (fun m => do
    tui.setAttribute pageMemAttrNormal
    tui.setCursorPosition 4 pageMemHeaderRow
    m) this

/-! ## Counting the highlighted cells -/

/-- The number of calls that set the highlight attribute. -/
def highlights (p : W × List AdapterCall) : ℕ := p.2.count (.setAttribute pageMemAttrHighlight)

theorem record_adds {α : Type} (c : AdapterCall) (m : Prog W α) :
    Prog.Adds highlights (if c = .setAttribute pageMemAttrHighlight then 1 else 0)
      (record c m) := by
  rintro ⟨w, calls⟩ r ⟨w', calls'⟩ h
  obtain rfl : calls ++ [c] = calls' := congrArg (fun q => q.2.2) h
  simp only [highlights, List.count_append, List.count_singleton, beq_iff_eq]

/-- The plain calls do not highlight. -/
theorem traced_adds (a : AdapterManager W) :
    (traced a).Serves AdapterCall.Plain (Prog.Adds highlights 0) := by
  refine (a.serves_true AdapterCall.Plain).traced ⟨fun _ => Prog.Adds.pure _ _, Prog.Adds.bind⟩ (fun w r w' h => by cases h)
    fun c m hc _ => ?_
  have hne : c ≠ .setAttribute pageMemAttrHighlight := by
    rintro rfl
    have hne : pageMemAttrHighlight ≠ pageMemAttrNormal := by decide
    exact hne hc
  have := record_adds c m
  rwa [if_neg hne] at this

section
variable (pageState : PageMemPageState)

theorem drawCell_adds (offset : NxUintn) (highlight : NxBool) :
    Prog.Adds highlights (if highlight then 1 else 0)
      (drawCell (traced a).tui (traced a).memory pageState offset highlight) := by
  obtain ⟨rest, heq, hrest⟩ := (traced_adds a).lines.drawCell_eq pageState offset highlight
  rw [heq]
  have hset := record_adds (.setAttribute (if highlight then pageMemAttrHighlight
    else pageMemAttrNormal)) (a.tui.setAttribute (if highlight then pageMemAttrHighlight
    else pageMemAttrNormal))
  have hcount : (if AdapterCall.setAttribute (if highlight then pageMemAttrHighlight
      else pageMemAttrNormal) = .setAttribute pageMemAttrHighlight then 1 else 0) =
      if highlight then 1 else 0 := by
    cases highlight <;> rfl
  rw [hcount] at hset
  exact Prog.Adds.bind hset fun _ => hrest

theorem drawMemoryStep_adds (offset : NxUintn) :
    Prog.Adds highlights (if offset = pageState.cursorState.offset then 1 else 0)
      (drawMemoryStep (traced a).tui (traced a).memory pageState offset) := by
  obtain ⟨first, heq, hfirst⟩ := (traced_adds a).lines.drawMemoryStep_eq pageState offset
  rw [heq, ← Nat.zero_add (if offset = pageState.cursorState.offset then 1 else 0)]
  have hcell := @drawCell_adds W a pageState offset (offset = pageState.cursorState.offset)
  simp only [decide_eq_true_eq] at hcell
  exact Prog.Adds.bind hfirst fun _ => hcell

/-- **A redraw highlights the cells** whose offset is the cursor's. -/
theorem drawPage_adds (h : WidthOk pageState.cursorState.width) :
    Prog.Adds highlights
      ((List.range' 0 (cellCount pageState.cursorState.width)).countP fun k =>
        cellOffset pageState.cursorState.width k = pageState.cursorState.offset)
      (pageMemViewDrawPage (traced a).tui (traced a).memory pageState) := by
  have hlines := (traced_adds a).lines
  have hrows := Prog.Adds.each (f := highlights)
    (p := fun k => decide (cellOffset pageState.cursorState.width k =
      pageState.cursorState.offset))
    (m := fun k => drawMemoryStep (traced a).tui (traced a).memory pageState
      (cellOffset pageState.cursorState.width k))
    (fun k => by
      simp only [decide_eq_true_eq]
      exact drawMemoryStep_adds pageState _)
    (List.range' 0 (cellCount pageState.cursorState.width))
  rw [← drawMemoryRows_eq (traced a).tui (traced a).memory pageState h] at hrows
  have := Prog.Adds.bind (hlines.drawPageFrame pageState ((traced_adds a).clearScreen trivial))
    fun _ => Prog.Adds.bind (hlines.drawMemoryHeader pageState) fun _ =>
      Prog.Adds.bind hrows fun _ =>
        Prog.Adds.bind hlines.drawPageHelp fun _ => hlines.pageMemViewUpdateInfo pageState
  simp only [Nat.zero_add, Nat.add_zero] at this
  exact this

end

end UefiNexus
