/-
  UefiNexus model — the view of PageMem (`PageMemView.c`).

  The first half builds the texts of the screen in character arrays; a builder
  takes the array with its size and returns it.  The second half draws through
  the TUI and the memory adapter.

  The loops `for (Offset = 0; Offset < Limit; Offset += Width)` run at most
  `Limit` times if `Width` is positive, so `Limit` is their fuel; with a width
  of zero they never end (`hang`).
-/
import UefiNexus.Adapter.Interface
import UefiNexus.Core.AddressMap
import UefiNexus.Core.Cursor
import UefiNexus.Core.Format

namespace UefiNexus

variable {W : Type}

def pageMemAttrNormal : NxUintn := 0x07
def pageMemAttrHighlight : NxUintn := 0x70

/-- A local character array before it is written: none of its cells is NUL. -/
def uninitialized {n : ℕ} (size : ℕ) : List (BitVec n) := List.replicate size (BitVec.allOnes n)

/-! ## Texts -/

/-- `AsciiAppendChar`, on the buffer and `*Pos`. -/
def asciiAppendChar (bufferSize : ℕ) (s : List NxChar × ℕ) (char : NxChar) : List NxChar × ℕ :=
  if s.2 + 1 ≥ bufferSize then s
  else ((s.1.set s.2 char).set (s.2 + 1) 0, s.2 + 1)

/-- `AsciiAppendString`. -/
def asciiAppendString (bufferSize : ℕ) (s : List NxChar × ℕ) (string : List NxChar) :
    List NxChar × ℕ :=
  (cstr string).foldl (asciiAppendChar bufferSize) s

/-- `AsciiAppendHexFixed`: the loop `Index = Digits - 1, …, 0`. -/
def asciiAppendHexFixed (bufferSize : ℕ) (value : NxU64) : ℕ → List NxChar × ℕ → List NxChar × ℕ
  | 0, s => s
  | index + 1, s =>
    asciiAppendHexFixed bufferSize value index
      (asciiAppendChar bufferSize s (hexChar ((value >>> (index * 4)) &&& 0xF).toNat))

/-- `AsciiAppendDecimal`. -/
def asciiAppendDecimal (bufferSize : ℕ) (s : List NxChar × ℕ) (value : NxUintn) :
    List NxChar × ℕ :=
  (decimalDigits value 20).reverse.foldl (asciiAppendChar bufferSize) s

/-- `BuildInfoString`. -/
def buildInfoString (pageState : PageMemPageState) (buffer : List NxChar) (bufferSize : ℕ) :
    List NxChar :=
  if bufferSize = 0 then buffer
  else
    let buffer := buffer.set 0 0
    let addressAscii :=
      pageCoreFormatAddress (pageCoreGetCurrentAddress pageState.cursorState) (uninitialized 32) 32
    let s := asciiAppendString bufferSize (buffer, 0) (ascii "Addr: ")
    let s := asciiAppendString bufferSize s addressAscii
    let s := asciiAppendString bufferSize s (ascii "  Offset: ")
    let s := asciiAppendHexFixed bufferSize pageState.cursorState.offset 2 s
    let s := asciiAppendString bufferSize s (ascii "  Width: ")
    (asciiAppendDecimal bufferSize s pageState.cursorState.width).1

/-- `BuildPageTypeString`. -/
def buildPageTypeString (pageState : PageMemPageState) (buffer : List NxChar) (bufferSize : ℕ) :
    List NxChar :=
  if bufferSize = 0 then buffer
  else
    let typeName :=
      if pageState.pageHasMemoryDescriptor then
        uefiMemoryTypeFormat pageState.pageUefiMemoryType (uninitialized 32) 32
      else (asciiAppendString 32 ((uninitialized 32).set 0 0, 0) (ascii "Unmapped")).1
    let accessName := uefiMemoryAccessFormat pageState.pageAccess (uninitialized 16) 16
    let s := asciiAppendString bufferSize (buffer.set 0 0, 0) (ascii "Type: ")
    let s := asciiAppendString bufferSize s typeName
    let s := asciiAppendString bufferSize s (ascii "  Access: ")
    (asciiAppendString bufferSize s accessName).1

/-- `BuildRowPrefixString`. -/
def buildRowPrefixString (address : NxU64) (buffer : List NxChar) (bufferSize : ℕ) :
    List NxChar :=
  if bufferSize = 0 then buffer
  else
    let s := asciiAppendHexFixed bufferSize address 2 (buffer.set 0 0, 0)
    (asciiAppendString bufferSize s (ascii ":")).1

/-- The loop of `AsciiToChar16` from `Index` on; returns the wide buffer and the
    final `Index`. -/
def asciiToChar16Loop (wideCapacity : ℕ) : List NxChar → ℕ → List NxUiChar → List NxUiChar × ℕ
  | [], index, wide => (wide, index)
  | c :: ascii, index, wide =>
    if index + 1 < wideCapacity then
      asciiToChar16Loop wideCapacity ascii (index + 1) (wide.set index (c.setWidth 16))
    else (wide, index)

/-- `AsciiToChar16`. -/
def asciiToChar16 (ascii : List NxChar) (wide : List NxUiChar) (wideCapacity : ℕ) :
    List NxUiChar :=
  if wideCapacity = 0 then wide
  else
    let s := asciiToChar16Loop wideCapacity (cstr ascii) 0 wide
    s.1.set s.2 0

/-- The wide copy of a narrow string in a new array, as the string it holds. -/
def widened (ascii : List NxChar) (wideCapacity : ℕ) : List NxUiChar :=
  cstr (asciiToChar16 ascii (uninitialized wideCapacity) wideCapacity)

/-- The loop that fills `Count` cells of the placeholder. -/
def putPlaceholders : ℕ → ℕ → List NxUiChar → List NxUiChar
  | 0, _, buffer => buffer
  | n + 1, index, buffer => putPlaceholders n (index + 1) (buffer.set index (L '?'))

/-- `BuildInvalidCellString`. -/
def buildInvalidCellString (width : NxUintn) (buffer : List NxUiChar) (bufferSize : ℕ) :
    List NxUiChar :=
  let count := width.toNat * 2
  if bufferSize < count + 2 then
    if bufferSize > 0 then buffer.set 0 0 else buffer
  else ((putPlaceholders count 0 buffer).set count (L ' ')).set (count + 1) 0

/-! ## Drawing -/

section
variable (tui : TuiAdapterInterface W) (memory : MemoryAdapterInterface W)

/-- `RenderRowPrefix`. -/
def renderRowPrefix (offset row : NxUintn) : Prog W Unit :=
  tui.outputStringAt 0 row (widened (buildRowPrefixString offset (uninitialized 32) 32) 32)

/-- The character of the preview at `Index`, read through the memory adapter
    when the address map has it. -/
def asciiPreviewChar (pageState : PageMemPageState) (offset : NxUintn) (index : ℕ) :
    Prog W NxUiChar := do
  let cellOffset := offset + BitVec.ofNat 64 index
  let address := pageState.cursorState.address + cellOffset
  let isValid := pageCoreIsRangeValid pageState.addressMap address 1
  let (readStatus, value) ←
    if isValid then memory.memRead address 1 else pure (NxStatus.accessDenied, 0)
  let char : NxU8 := value.setWidth 8
  if ¬ nxUiError readStatus ∧ char ≥ 32 ∧ char ≤ 126 then pure (char.setWidth 16)
  else pure (L '.')

/-- The loop of `RenderAsciiPreview` from `index` on. -/
def asciiPreviewFrom (pageState : PageMemPageState) (offset : NxUintn) :
    ℕ → ℕ → Prog W (List NxUiChar)
  | 0, _ => pure []
  | n + 1, index => do
    let char ← asciiPreviewChar memory pageState offset index
    let chars ← asciiPreviewFrom pageState offset n (index + 1)
    pure (char :: chars)

/-- `RenderAsciiPreview`. -/
def renderAsciiPreview (pageState : PageMemPageState) (offset row : NxUintn) : Prog W Unit := do
  let asciiBuf ← asciiPreviewFrom memory pageState offset cols.toNat 0
  tui.outputStringAt 54 row asciiBuf

/-- `ClearRow`. -/
def clearRow (row : NxUintn) : Prog W Unit := do
  let (status, columns, _) ← tui.getScreenDimensions
  let columns :=
    if nxUiError status ∨ columns = 0 ∨ columns > defaultColumns then defaultColumns else columns
  tui.outputStringAt 0 row (List.replicate columns.toNat (L ' '))

/-- `GetCellPosition`: the column and the row of the cell at an offset. -/
def getCellPosition (pageState : PageMemPageState) (offset : NxUintn) : NxUintn × NxUintn :=
  let width := pageState.cursorState.width
  let bytesPerRow := cols / width * width
  let cellWidth := pageCoreGetCellDisplayWidth width
  (4 + offset % bytesPerRow / width * cellWidth, pageMemDataRow + offset / bytesPerRow)

/-- The text `DrawCell` shows for the outcome of the read. -/
def cellText (width : NxUintn) (readStatus : NxStatus) (value : NxU64) : List NxUiChar :=
  if ¬ nxUiError readStatus then
    widened (pageCoreFormatValueLE value width (uninitialized cellStrMax) cellStrMax).1 cellStrMax
  else cstr (buildInvalidCellString width (uninitialized cellStrMax) cellStrMax)

/-- `DrawCell`. -/
def drawCell (pageState : PageMemPageState) (offset : NxUintn) (highlight : NxBool) :
    Prog W Unit := do
  let width := pageState.cursorState.width
  let address := pageState.cursorState.address + offset
  let (column, row) := getCellPosition pageState offset
  tui.setAttribute (if highlight then pageMemAttrHighlight else pageMemAttrNormal)
  let isValid := pageCoreIsRangeValid pageState.addressMap address width
  let (readStatus, value) ←
    if isValid then memory.memRead address width else pure (NxStatus.accessDenied, 0)
  tui.outputStringAt column row (cellText width readStatus value)
  tui.setAttribute pageMemAttrNormal

/-- `PageMemViewUpdateCell`. -/
def pageMemViewUpdateCell (pageState : PageMemPageState) (offset : NxUintn) (highlight : NxBool) :
    Prog W Unit :=
  drawCell tui memory pageState offset highlight

/-- `PageMemViewUpdateInfo`. -/
def pageMemViewUpdateInfo (pageState : PageMemPageState) : Prog W Unit := do
  clearRow tui pageMemInfoRow
  tui.outputStringAt 0 pageMemInfoRow
    (widened (buildInfoString pageState (uninitialized 128) 128) 128)

/-- `DrawPageFrame`. -/
def drawPageFrame (pageState : PageMemPageState) : Prog W Unit := do
  tui.clearScreen
  tui.outputStringAt 0 pageMemTitleRow (wide "Memory Viewer")
  tui.outputStringAt 0 pageMemTypeRow
    (widened (buildPageTypeString pageState (uninitialized 96) 96) 96)

/-- The loop of `DrawMemoryHeader` from `offset` on. -/
def drawMemoryHeaderFrom (width : NxUintn) : ℕ → NxUintn → Prog W Unit
  | 0, offset => if offset < cols then Prog.hang else pure ()
  | n + 1, offset => do
    if offset < cols then
      let headerAscii := (pageCoreFormatOffsetHeader offset width (uninitialized cellStrMax) cellStrMax).1
      tui.outputString (widened headerAscii cellStrMax)
      drawMemoryHeaderFrom width n (offset + width)
    else pure ()

/-- `DrawMemoryHeader`. -/
def drawMemoryHeader (pageState : PageMemPageState) : Prog W Unit := do
  tui.setAttribute pageMemAttrNormal
  tui.setCursorPosition 4 pageMemHeaderRow
  drawMemoryHeaderFrom tui pageState.cursorState.width cols.toNat 0

/-- The body of the loop of `DrawMemoryRows`. -/
def drawMemoryStep (pageState : PageMemPageState) (offset : NxUintn) : Prog W Unit := do
  if offset % cols = 0 then
    let row := pageMemDataRow + offset / cols
    renderRowPrefix tui offset row
    renderAsciiPreview tui memory pageState offset row
  pageMemViewUpdateCell tui memory pageState offset (offset = pageState.cursorState.offset)

/-- The loop of `DrawMemoryRows` from `offset` on. -/
def drawMemoryRowsFrom (pageState : PageMemPageState) : ℕ → NxUintn → Prog W Unit
  | 0, offset => if offset < pageSize then Prog.hang else pure ()
  | n + 1, offset => do
    if offset < pageSize then
      drawMemoryStep tui memory pageState offset
      drawMemoryRowsFrom pageState n (offset + pageState.cursorState.width)
    else pure ()

/-- `DrawMemoryRows`. -/
def drawMemoryRows (pageState : PageMemPageState) : Prog W Unit :=
  drawMemoryRowsFrom tui memory pageState pageSize.toNat 0

/-- `DrawPageHelp`. -/
def drawPageHelp : Prog W Unit := do
  clearRow tui pageMemHelpRow
  clearRow tui pageMemHelp2Row
  tui.outputStringAt 0 pageMemHelpRow pageMemHelpText
  tui.outputStringAt 0 pageMemHelp2Row
    (wide "E: Edit  G: Goto  R: Ranges  1/2/4/8: Width  ESC: Exit")

/-- `PageMemViewDrawPage`. -/
def pageMemViewDrawPage (pageState : PageMemPageState) : Prog W Unit := do
  drawPageFrame tui pageState
  drawMemoryHeader tui pageState
  drawMemoryRows tui memory pageState
  drawPageHelp tui
  pageMemViewUpdateInfo tui pageState

end

end UefiNexus
