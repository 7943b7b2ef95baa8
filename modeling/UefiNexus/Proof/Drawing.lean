/-
  What the view paints.

  For each drawing routine, the strokes it paints on a terminal as a function of
  the page state and of the memory: `cellStroke`, `lineStrokes`, `infoStrokes`,
  and `pageStrokes` for the whole page.  The routines return, and paint exactly
  these (`draws_cell`, `draws_info`, `drawPage_spec`).
-/
import UefiNexus.Proof.Cells
import UefiNexus.Proof.Texts

namespace UefiNexus

namespace Terminal

variable {W M : Type} (T : Terminal W M) (e : M) (pageState : PageMemPageState)

/-! ## The strokes -/

/-- The outcome of the read of a range that is read only if the map has it. -/
def valueAt (address : NxU64) (width : NxUintn) : NxStatus × NxU64 :=
  if pageCoreIsRangeValid pageState.addressMap address width then T.read e address width
  else (.accessDenied, 0)

/-- A cell. -/
def cellStroke (offset : NxUintn) (highlight : NxBool) : Stroke NxUiChar NxUintn :=
  let width := pageState.cursorState.width
  let position := getCellPosition pageState offset
  let value := T.valueAt e pageState (pageState.cursorState.address + offset) width
  T.stroke position.1 position.2 (cellText width value.1 value.2)
    (if highlight then pageMemAttrHighlight else pageMemAttrNormal)

/-- A character of the preview. -/
def previewChar (offset : NxUintn) (index : ℕ) : NxUiChar :=
  let value := T.valueAt e pageState
    (pageState.cursorState.address + (offset + BitVec.ofNat 64 index)) 1
  let char : NxU8 := value.2.setWidth 8
  if ¬ nxUiError value.1 ∧ char ≥ 32 ∧ char ≤ 126 then char.setWidth 16 else L '.'

/-- The prefix and the preview, at the first cell of a row. -/
def lineStrokes (offset : NxUintn) : List (Stroke NxUiChar NxUintn) :=
  if offset % cols = 0 then
    [T.stroke 0 (pageMemDataRow + offset / cols)
        (widened (buildRowPrefixString offset (uninitialized 32) 32) 32) pageMemAttrNormal,
      T.stroke 54 (pageMemDataRow + offset / cols)
        ((List.range' 0 cols.toNat).map (T.previewChar e pageState offset)) pageMemAttrNormal]
  else []

/-- A step of the rows. -/
def stepStrokes (offset : NxUintn) : List (Stroke NxUiChar NxUintn) :=
  T.lineStrokes e pageState offset ++
    [T.cellStroke e pageState offset (offset = pageState.cursorState.offset)]

/-- The rows of the grid. -/
def gridStrokes : List (Stroke NxUiChar NxUintn) :=
  (List.range' 0 (cellCount pageState.cursorState.width)).flatMap fun k =>
    T.stepStrokes e pageState (cellOffset pageState.cursorState.width k)

/-- The columns `ClearRow` clears. -/
def clearedColumns : NxUintn :=
  let (status, columns, _) := T.dimensions e
  if nxUiError status ∨ columns = 0 ∨ columns > defaultColumns then defaultColumns else columns

/-- A row that is cleared. -/
def blankStroke (row : NxUintn) : Stroke NxUiChar NxUintn :=
  T.stroke 0 row (List.replicate (T.clearedColumns e).toNat (L ' ')) pageMemAttrNormal

/-- The information row. -/
def infoStrokes : List (Stroke NxUiChar NxUintn) :=
  [T.blankStroke e pageMemInfoRow,
    T.stroke 0 pageMemInfoRow (widened (buildInfoString pageState (uninitialized 128) 128) 128)
      pageMemAttrNormal]

/-- The title and the type, in the attribute the caller has left. -/
def frameStrokes (attr : NxUintn) : List (Stroke NxUiChar NxUintn) :=
  [T.stroke 0 pageMemTitleRow (wide "Memory Viewer") attr,
    T.stroke 0 pageMemTypeRow (widened (buildPageTypeString pageState (uninitialized 96) 96) 96) attr]

/-- The headings of the columns. -/
def headerStroke : Stroke NxUiChar NxUintn :=
  T.stroke 4 pageMemHeaderRow
    ((List.range' 0 (16 / pageState.cursorState.width.toNat)).flatMap fun k =>
      columnHeading pageState.cursorState.width (cellOffset pageState.cursorState.width k))
    pageMemAttrNormal

/-- The help rows. -/
def helpStrokes : List (Stroke NxUiChar NxUintn) :=
  [T.blankStroke e pageMemHelpRow, T.blankStroke e pageMemHelp2Row,
    T.stroke 0 pageMemHelpRow pageMemHelpText pageMemAttrNormal,
    T.stroke 0 pageMemHelp2Row (wide "E: Edit  G: Goto  R: Ranges  1/2/4/8: Width  ESC: Exit")
      pageMemAttrNormal]

/-- The page. -/
def pageStrokes (attr : NxUintn) : List (Stroke NxUiChar NxUintn) :=
  T.frameStrokes pageState attr ++ ([T.headerStroke pageState] ++ (T.gridStrokes e pageState ++
    (T.helpStrokes e ++ T.infoStrokes e pageState)))

/-! ## The routines -/

/-- What the view outputs has no control characters. -/
theorem printable_of_plain {v : ℕ} {text : List (BitVec v)} (h : ∀ c ∈ text, Plain c) :
    ∀ c ∈ text, Printable c := fun c hc => (h c hc).1

theorem columnHeading_plain {width : NxUintn} (hw : WidthOk width) (offset : NxUintn) :
    ∀ c ∈ columnHeading width offset, Plain c := by
  refine widened_plain ?_ (by decide)
  rw [pageCoreFormatOffsetHeader, formatCell_string _ (cellStrMax_ge hw) (le_uninitialized _)]
  exact cellBytes_plain _ _

theorem rowPrefix_widened_plain (offset : NxUintn) :
    ∀ c ∈ widened (buildRowPrefixString offset (uninitialized 32) 32) 32, Plain c := by
  refine widened_plain ?_ (by decide)
  rw [rowPrefix_string offset (by decide) (le_uninitialized _)]
  exact fun c hc => rowPrefix_plain offset c (List.mem_of_mem_take hc)

theorem info_widened_plain :
    ∀ c ∈ widened (buildInfoString pageState (uninitialized 128) 128) 128, Plain c := by
  refine widened_plain ?_ (by decide)
  rw [infoString_string pageState (by decide) (le_uninitialized _)]
  exact fun c hc => infoText_plain _ c (List.mem_of_mem_take hc)

theorem type_widened_plain :
    ∀ c ∈ widened (buildPageTypeString pageState (uninitialized 96) 96) 96, Plain c := by
  refine widened_plain ?_ (by decide)
  rw [pageTypeString_string pageState (by decide) (le_uninitialized _)]
  exact fun c hc => typeText_plain _ c (List.mem_of_mem_take hc)

theorem blanks_plain (n : ℕ) : ∀ c ∈ List.replicate n (L ' '), Plain c := by
  have hblank : Plain (L ' ') := by decide
  intro c hc
  rw [List.eq_of_mem_replicate hc]
  exact hblank

theorem previewChar_printable (offset : NxUintn) (index : ℕ) :
    Printable (T.previewChar e pageState offset index) := by
  have hdot : Printable (L '.') := by decide
  rw [previewChar]
  split_ifs with hshow
  · obtain ⟨-, hlow, hhigh⟩ := hshow
    have hsame : (((T.valueAt e pageState
        (pageState.cursorState.address + (offset + BitVec.ofNat 64 index)) 1).2.setWidth
          8).setWidth 16).toNat = ((T.valueAt e pageState
        (pageState.cursorState.address + (offset + BitVec.ofNat 64 index)) 1).2.setWidth 8).toNat :=
      by
        rw [BitVec.toNat_setWidth]
        exact Nat.mod_eq_of_lt (by omega)
    rw [Printable, hsame]
    exact ⟨BitVec.le_def.1 hlow, BitVec.le_def.1 hhigh⟩
  · exact hdot

section
variable {T e} {a : AdapterManager W} {attr : NxUintn} (h : T.Drives a)
include h

/-- A range is read, and what was read is used. -/
theorem Drives.draws_value {α : Type} {attr' : NxUintn} {ss : List (Stroke NxUiChar NxUintn)}
    {address : NxU64} {width : NxUintn} {f : NxStatus × NxU64 → Prog W α} {r : α}
    (hf : T.Draws e attr attr' ss (f (T.valueAt e pageState address width)) r) :
    T.Draws e attr attr' ss
      (if pageCoreIsRangeValid pageState.addressMap address width then
        a.memory.memRead address width >>= f else pure (NxStatus.accessDenied, 0) >>= f) r := by
  rw [valueAt] at hf
  split_ifs at hf ⊢
  · exact (h.draws_memRead address width).bind hf
  · exact (Draws.pure _).bind hf

theorem Drives.draws_previewChar (offset : NxUintn) (index : ℕ) :
    T.Draws e attr attr [] (asciiPreviewChar a.memory pageState offset index)
      (T.previewChar e pageState offset index) := by
  refine h.draws_value pageState ?_
  simp only [previewChar]
  split_ifs
  · exact Draws.pure _
  · exact Draws.pure _

theorem Drives.draws_previewFrom (offset : NxUintn) :
    ∀ n index, T.Draws e attr attr [] (asciiPreviewFrom a.memory pageState offset n index)
      ((List.range' index n).map (T.previewChar e pageState offset))
  | 0, _ => Draws.pure _
  | n + 1, index =>
    (h.draws_previewChar pageState offset index).bind <|
      (draws_previewFrom offset n (index + 1)).bind (Draws.pure _)

theorem Drives.draws_preview (offset row : NxUintn) :
    T.Draws e attr attr
      [T.stroke 54 row ((List.range' 0 cols.toNat).map (T.previewChar e pageState offset)) attr]
      (renderAsciiPreview a.tui a.memory pageState offset row) () := by
  refine (h.draws_previewFrom pageState offset cols.toNat 0).bind (h.draws_outputStringAt _ _ ?_)
  intro c hc
  obtain ⟨index, -, rfl⟩ := List.mem_map.1 hc
  exact previewChar_printable T e pageState offset index

theorem Drives.draws_clearRow (row : NxUintn) :
    T.Draws e pageMemAttrNormal pageMemAttrNormal [T.blankStroke e row] (clearRow a.tui row) () :=
  h.draws_getScreenDimensions.bind
    (h.draws_outputStringAt _ _ (printable_of_plain (blanks_plain _)))

theorem Drives.draws_info :
    T.Draws e pageMemAttrNormal pageMemAttrNormal (T.infoStrokes e pageState)
      (pageMemViewUpdateInfo a.tui pageState) () :=
  (h.draws_clearRow pageMemInfoRow).bind
    (h.draws_outputStringAt _ _ (printable_of_plain (info_widened_plain pageState)))

theorem Drives.draws_help :
    T.Draws e pageMemAttrNormal pageMemAttrNormal (T.helpStrokes e) (drawPageHelp a.tui) () :=
  (h.draws_clearRow _).bind <| (h.draws_clearRow _).bind <|
    (h.draws_outputStringAt _ _ (printable_of_plain (plain_of_all (by decide)))).bind <|
      h.draws_outputStringAt _ _ (printable_of_plain (plain_of_all (by decide)))

theorem Drives.draws_frame :
    T.Draws e attr attr (T.frameStrokes pageState attr) (do
      a.tui.outputStringAt 0 pageMemTitleRow (wide "Memory Viewer")
      a.tui.outputStringAt 0 pageMemTypeRow
        (widened (buildPageTypeString pageState (uninitialized 96) 96) 96)) () :=
  (h.draws_outputStringAt _ _ (printable_of_plain (plain_of_all (by decide)))).bind
    (h.draws_outputStringAt _ _ (printable_of_plain (type_widened_plain pageState)))

variable (hw : WidthOk pageState.cursorState.width)
include hw

theorem Drives.draws_cell (offset : NxUintn) (highlight : NxBool) :
    T.Draws e attr pageMemAttrNormal [T.cellStroke e pageState offset highlight]
      (drawCell a.tui a.memory pageState offset highlight) () := by
  refine (h.draws_setAttribute (if highlight then pageMemAttrHighlight
    else pageMemAttrNormal)).bind (h.draws_value pageState ?_)
  exact (h.draws_outputStringAt _ _ (printable_of_plain (cellText_spec hw _ _).1)).bind
    (h.draws_setAttribute pageMemAttrNormal)

theorem Drives.draws_step (offset : NxUintn) :
    T.Draws e pageMemAttrNormal pageMemAttrNormal (T.stepStrokes e pageState offset)
      (drawMemoryStep a.tui a.memory pageState offset) () := by
  have hcell : T.Draws e pageMemAttrNormal pageMemAttrNormal _ _ _ :=
    h.draws_cell pageState hw offset (offset = pageState.cursorState.offset)
  rw [stepStrokes, lineStrokes, drawMemoryStep]
  split_ifs
  · exact (h.draws_outputStringAt _ _ (printable_of_plain (rowPrefix_widened_plain _))).bind
      ((h.draws_preview pageState _ _).bind hcell)
  · exact hcell

theorem Drives.draws_header :
    T.Draws e attr pageMemAttrNormal [T.headerStroke pageState] (drawMemoryHeader a.tui pageState)
      () := by
  have hplain := columnHeading_plain hw
  rw [drawMemoryHeader_eq a.tui pageState hw]
  refine (h.draws_setAttribute pageMemAttrNormal).bind (Draws.of_put fun w => ?_)
  obtain ⟨w₁, h₁, hscreen₁, henv₁⟩ := h.setCursorPosition 4 pageMemHeaderRow w
  obtain ⟨w₂, h₂, hscreen₂, henv₂⟩ := h.outputString_each
    (fun k => hplain (cellOffset pageState.cursorState.width k))
    (List.range' 0 (16 / pageState.cursorState.width.toNat)) w₁
  refine ⟨w₂, ?_, ?_, henv₂.trans henv₁⟩
  · rw [Prog.bind_of_some h₁]; exact h₂
  · rw [hscreen₂, hscreen₁, T.render_plain]
    intro c hc
    obtain ⟨k, -, hc⟩ := List.mem_flatMap.1 hc
    exact hplain _ c hc

theorem Drives.draws_rows :
    T.Draws e pageMemAttrNormal pageMemAttrNormal (T.gridStrokes e pageState)
      (drawMemoryRows a.tui a.memory pageState) () := by
  rw [drawMemoryRows_eq a.tui a.memory pageState hw]
  exact Draws.each fun k _ => h.draws_step pageState hw _

/-- **A redraw** returns, and leaves the strokes of the page on the screen. -/
theorem Drives.drawPage_spec (w : W) :
    ∃ w', pageMemViewDrawPage a.tui a.memory pageState w = (some (), w') ∧ T.env w' = T.env w ∧
      (T.screen w').attr = pageMemAttrNormal ∧
      (T.screen w').cells = Grid.paintAll Grid.blank
        (T.pageStrokes (T.env w) pageState (T.screen w).attr) := by
  obtain ⟨w₁, hclear, hscreen₁, henv₁⟩ := h.clearScreen w
  have hframe : T.Draws (T.env w) (T.screen w).attr (T.screen w).attr _ _ _ :=
    h.draws_frame pageState
  have hpage := hframe.bind
    (f := fun _ => do
      drawMemoryHeader a.tui pageState
      drawMemoryRows a.tui a.memory pageState
      drawPageHelp a.tui
      pageMemViewUpdateInfo a.tui pageState) <|
    (h.draws_header pageState hw).bind <| (h.draws_rows pageState hw).bind <|
      h.draws_help.bind <| h.draws_info pageState
  obtain ⟨w₂, hrest, henv₂, hattr₂, hcells₂⟩ := hpage w₁ henv₁ (by rw [hscreen₁]; rfl)
  refine ⟨w₂, ?_, henv₂, hattr₂, ?_⟩
  · rw [pageMemViewDrawPage, drawPageFrame, Prog.seq_assoc, Prog.bind_of_some hclear]
    exact hrest
  · rw [hcells₂, hscreen₁]
    rfl

end
end Terminal
end UefiNexus
