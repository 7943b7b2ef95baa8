/-
  UefiNexus model — the actions of PageMem (`PageMemActions.c`): edit, goto,
  page up and page down.  An action returns its status and, where it changes
  it, the page state.
-/
import UefiNexus.Adapter.Interface
import UefiNexus.Core.AddressMap
import UefiNexus.Core.Cursor

namespace UefiNexus

variable {W : Type}

/-- `ClearStatusLine`: the status of `GetScreenDimensions` is not looked at. -/
def clearStatusLine (tui : TuiAdapterInterface W) : Prog W Unit := do
  let (_, columns, _) ← tui.getScreenDimensions
  let count := if columns < 127 then columns else 127
  tui.outputStringAt 0 pageMemStatusRow (List.replicate count.toNat (L ' '))

/-- `ClearGotoPrompt`. -/
def clearGotoPrompt (tui : TuiAdapterInterface W) : Prog W Unit := do
  let (status, columns, _) ← tui.getScreenDimensions
  let columns :=
    if status ≠ .success ∨ columns ≤ pageMemGotoPromptColumn then defaultColumns else columns
  let count := columns - pageMemGotoPromptColumn
  let count :=
    if count > defaultColumns - pageMemGotoPromptColumn then
      defaultColumns - pageMemGotoPromptColumn
    else count
  tui.outputStringAt pageMemGotoPromptColumn pageMemHelpRow (List.replicate count.toNat (L ' '))
  tui.outputStringAt 0 pageMemHelpRow pageMemHelpText

/-- `PageMemValueFitsWidth`. -/
def pageMemValueFitsWidth (value : NxU64) (width : NxUintn) : NxBool :=
  if width = 0 ∨ width > 8 then false
  else if width = 8 then true
  else
    let shift := width * 8
    value ≤ (1#64 <<< shift) - 1

/-- The message of an edit at an offset that is not a multiple of the width. -/
def offsetNotAligned : List NxUiChar := wide "Selected offset is not aligned to width"

/-- `PageMemActionEditValue`. -/
def pageMemActionEditValue (pageState : PageMemPageState) (adapters : AdapterManager W) :
    Prog W NxStatus := do
  let address := pageCoreGetCurrentAddress pageState.cursorState
  let width := pageState.cursorState.width
  if width = 0 ∨ (width ≠ 1 ∧ width ≠ 2 ∧ width ≠ 4 ∧ width ≠ 8) then
    adapters.error.reportError (wide "Selected width is invalid") .invalidParameter
    return .invalidParameter
  else if pageState.cursorState.offset % width ≠ 0 then
    adapters.error.reportError offsetNotAligned .invalidParameter
    return .invalidParameter
  else if ¬ pageCoreIsRangeValid pageState.addressMap address width then
    adapters.error.reportError (wide "Selected range is not valid") .invalidParameter
    return .invalidParameter
  else
    clearStatusLine adapters.tui
    adapters.tui.outputStringAt 0 pageMemStatusRow (wide "Edit value (hex): ")
    let maxDigits := width * 2
    let (committed, newValue) ← adapters.tui.readHex maxDigits
    if ¬ committed then return .aborted
    else if ¬ pageMemValueFitsWidth newValue width then
      adapters.error.reportError (wide "Input value exceeds selected width") .invalidParameter
      return .invalidParameter
    else adapters.memory.memWrite address width newValue

/-- The prompt of `PageMemActionGotoAddress`. -/
def gotoPrompt (tui : TuiAdapterInterface W) : Prog W (NxBool × NxU64) := do
  tui.outputStringAt pageMemGotoPromptColumn pageMemHelpRow (wide "Goto address (hex):")
  tui.readHex 16

/-- The page state at a new address. -/
def gotoState (pageState : PageMemPageState) (address : NxU64) : PageMemPageState :=
  let base := pageCoreAlignToPage address pageSize
  pageCoreMarkForRedraw
    { pageState with
      cursorState := { pageState.cursorState with address := base, offset := address - base } }

/-- `PageMemActionGotoAddress`. -/
def pageMemActionGotoAddress (pageState : PageMemPageState) (adapters : AdapterManager W) :
    Prog W (NxStatus × PageMemPageState) := do
  let (committed, address) ← gotoPrompt adapters.tui
  if ¬ committed then
    clearGotoPrompt adapters.tui
    return (.aborted, pageState)
  else
    clearGotoPrompt adapters.tui
    return (.success, gotoState pageState address)

/-- What `PageMemActionPageUp` and `PageMemActionPageDown` do with the page Core
    has found. -/
def pageMemMoveToPage (pageState : PageMemPageState) (address : NxU64) : PageMemPageState :=
  if address ≠ pageState.cursorState.address ∧
      pageCoreIsRangeValid pageState.addressMap address pageSize then
    pageCoreMarkForRedraw
      { pageState with
        cursorState := { pageState.cursorState with address := address, offset := 0 } }
  else pageState

/-- `PageMemActionPageUp`. -/
def pageMemActionPageUp (pageState : PageMemPageState) : NxStatus × PageMemPageState :=
  (.success,
    pageMemMoveToPage pageState
      (pageCoreGetPreviousValidPageAddress pageState.addressMap pageState.cursorState.address
        pageSize))

/-- `PageMemActionPageDown`. -/
def pageMemActionPageDown (pageState : PageMemPageState) : NxStatus × PageMemPageState :=
  (.success,
    pageMemMoveToPage pageState
      (pageCoreGetNextValidPageAddress pageState.addressMap pageState.cursorState.address
        pageSize))

end UefiNexus
