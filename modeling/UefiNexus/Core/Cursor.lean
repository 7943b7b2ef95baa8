/-
  UefiNexus model — the cursor and the page state of PageMem
  (`Core/CursorEngine.c`, `Core/StateMachine.c`).
-/
import UefiNexus.Base

namespace UefiNexus

/-! ## Cursor engine -/

/-- `PageCoreMoveCursor`.  `NX_INTN` values are words read as signed; the new
    offset is clamped to the page and then aligned down to the width. -/
def pageCoreMoveCursor (state : PageMemCursorState) (delta : NxIntn) : PageMemCursorState :=
  let step := if state.width.sle 0 then 1 else state.width
  let newOffset := state.offset + delta * step
  let newOffset := if newOffset.slt 0 then 0 else newOffset
  let maxOffset := pageSize - (if state.width = 0 then 1 else state.width)
  let newOffset := if newOffset > maxOffset then maxOffset else newOffset
  let newOffset := if state.width > 1 then newOffset &&& ~~~(state.width - 1) else newOffset
  { state with offset := newOffset }

/-- `PageCoreSetCursorWidth`. -/
def pageCoreSetCursorWidth (state : PageMemCursorState) (width : NxUintn) : PageMemCursorState :=
  let width := if width = 0 then 1 else width
  let offset := state.offset &&& ~~~(width - 1)
  let offset := if offset ≥ pageSize then pageSize - width else offset
  { state with width := width, offset := offset }

/-- `PageCoreAlignToPage`. -/
def pageCoreAlignToPage (address : NxU64) (pageSize : NxUintn) : NxU64 :=
  if pageSize = 0 then address else address &&& ~~~(pageSize - 1)

/-- `PageCoreGetCurrentAddress`. -/
def pageCoreGetCurrentAddress (state : PageMemCursorState) : NxU64 := state.address + state.offset

/-! ## State machine -/

/-- `PageCoreInitPageState`. -/
def pageCoreInitPageState (state : PageMemPageState) (initialAddress : NxU64) :
    NxStatus × PageMemPageState :=
  (.success,
    { state with
      currentState := .viewing
      cursorState := ⟨pageCoreAlignToPage initialAddress pageSize, 0, 1⟩
      needsRedraw := true })

/-- `PageCoreTransitionState`. -/
def pageCoreTransitionState (state : PageMemPageState) (newState : PageMemState) :
    PageMemPageState :=
  { state with
    currentState := newState
    needsRedraw := if state.currentState ≠ newState then true else state.needsRedraw }

/-- `PageCoreMarkForRedraw`. -/
def pageCoreMarkForRedraw (state : PageMemPageState) : PageMemPageState :=
  { state with needsRedraw := true }

end UefiNexus
