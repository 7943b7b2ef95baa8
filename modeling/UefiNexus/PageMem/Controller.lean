/-
  UefiNexus model — the controller of PageMem (`PageMemController.c`).

  `pageMemControllerRun` is the source's loop with fuel: `redrawIfNeeded` is the
  part of the body before `ReadKey`, `serveKey` the part from it on.  The page
  state is a local variable that is not initialized, so a run starts from any
  page state.
-/
import UefiNexus.PageMem.View
import UefiNexus.PageMem.Actions

namespace UefiNexus

variable {W : Type}

/-- `PageMemControllerUpdatePageType`. -/
def pageMemControllerUpdatePageType (pageState : PageMemPageState) (adapters : AdapterManager W) :
    Prog W (NxStatus × PageMemPageState) :=
  match adapters.memory.getMemoryTypeAtAddress with
  | none => do
    adapters.error.reportError (wide "Memory type lookup is unavailable") .notFound
    return (.notFound, pageState)
  | some getMemoryTypeAtAddress => do
    let (status, type, found) ←
      getMemoryTypeAtAddress pageState.cursorState.address
        (pageState.pageUefiMemoryType, pageState.pageHasMemoryDescriptor)
    let pageState :=
      { pageState with pageUefiMemoryType := type, pageHasMemoryDescriptor := found }
    if nxUiError status then
      adapters.error.reportError (wide "Memory type lookup failed") status
      return (status, pageState)
    else
      let access : NxMemoryAccess :=
        ⟨NxStatus.notFound.code.setWidth 64, 0, false, false, false, false⟩
      match adapters.memory.queryAccess with
      | none => return (.success, { pageState with pageAccess := access })
      | some queryAccess =>
        let access ← queryAccess pageState.cursorState.address pageSize access
        return (.success, { pageState with pageAccess := access })

/-- `PageMemStatusToUi`. -/
def pageMemStatusToUi (status : NxStatus) : NxStatus :=
  match status with
  | .success => .success
  | .invalidParameter => .invalidParameter
  | .notFound => .notFound
  | .accessDenied => .accessDenied
  | .aborted => .aborted
  | .bufferTooSmall | .deviceError => .deviceError

/-- `PageMemControllerInit`. -/
def pageMemControllerInit (state : PageMemPageState) (adapters : AdapterManager W) :
    Prog W (NxStatus × PageMemPageState) := do
  let status ← adapters.memory.init
  if nxUiError status then
    adapters.error.reportError (wide "Memory adapter initialization failed") status
    return (status, state)
  else
    let descriptors ← adapters.memory.getMemoryMapDescriptors
    let (coreStatus, addressMap) := pageCoreInitAddressMap state.addressMap descriptors
    let state := { state with addressMap := addressMap }
    if coreStatus ≠ .success then return (pageMemStatusToUi coreStatus, state)
    else
      let firstAddress := pageCoreGetFirstValidAddress state.addressMap
      let (coreStatus, state) := pageCoreInitPageState state firstAddress
      if coreStatus ≠ .success then return (pageMemStatusToUi coreStatus, state)
      else pageMemControllerUpdatePageType state adapters

/-! ## Keys -/

/-- The cursor movement an arrow key stands for, `0` for any other key. -/
def keyDelta (key : NxUiKey) (width : NxUintn) : NxIntn :=
  if key.scanCode = nxUiScanUp then -(cols / width)
  else if key.scanCode = nxUiScanDown then cols / width
  else if key.scanCode = nxUiScanLeft then -1
  else if key.scanCode = nxUiScanRight then 1
  else 0

/-- The fast path of an arrow key. -/
def moveCursorByKey (delta : NxIntn) (pageState : PageMemPageState) (adapters : AdapterManager W) :
    Prog W (NxStatus × PageMemPageState) := do
  let oldOffset := pageState.cursorState.offset
  let pageState :=
    { pageState with cursorState := pageCoreMoveCursor pageState.cursorState delta }
  if pageState.cursorState.offset ≠ oldOffset then
    pageMemViewUpdateCell adapters.tui adapters.memory pageState oldOffset false
    pageMemViewUpdateCell adapters.tui adapters.memory pageState pageState.cursorState.offset true
    pageMemViewUpdateInfo adapters.tui pageState
    return (.success, { pageState with needsRedraw := false })
  else return (.success, pageState)

/-- The commands of the unicode characters. -/
inductive Command where
  | edit
  | goto
  | pageDown
  | pageUp
  | ranges
  | width (width : NxUintn)
  deriving DecidableEq, Repr

/-- The `case` labels of the command switch. -/
def command (unicodeChar : NxUiChar) : Option Command :=
  if unicodeChar = L 'e' ∨ unicodeChar = L 'E' then some .edit
  else if unicodeChar = L 'g' ∨ unicodeChar = L 'G' then some .goto
  else if unicodeChar = L 'n' ∨ unicodeChar = L 'N' then some .pageDown
  else if unicodeChar = L 'p' ∨ unicodeChar = L 'P' then some .pageUp
  else if unicodeChar = L 'r' ∨ unicodeChar = L 'R' then some .ranges
  else if unicodeChar = L '1' then some (.width 1)
  else if unicodeChar = L '2' then some (.width 2)
  else if unicodeChar = L '4' then some (.width 4)
  else if unicodeChar = L '8' then some (.width 8)
  else none

/-- The type lookup after a successful command that has changed the page. -/
def updateMovedPage (oldPageAddress : NxU64) (status : NxStatus) (pageState : PageMemPageState)
    (adapters : AdapterManager W) : Prog W (NxStatus × PageMemPageState) :=
  if status = .success ∧ pageState.cursorState.address ≠ oldPageAddress then
    pageMemControllerUpdatePageType pageState adapters
  else pure (status, pageState)

/-- The commands of `PageMemControllerHandleKeyPress`. -/
def handleCommand (unicodeChar : NxUiChar) (pageState : PageMemPageState)
    (adapters : AdapterManager W) : Prog W (NxStatus × PageMemPageState) :=
  let oldPageAddress := pageState.cursorState.address
  match command unicodeChar with
  | some .edit => do
    let pageState := pageCoreTransitionState pageState .editing
    let status ← pageMemActionEditValue pageState adapters
    let pageState := pageCoreTransitionState pageState .viewing
    return (status, pageCoreMarkForRedraw pageState)
  | some .goto => do
    let pageState := pageCoreTransitionState pageState .goto
    let (status, pageState) ← pageMemActionGotoAddress pageState adapters
    let pageState := pageCoreTransitionState pageState .viewing
    updateMovedPage oldPageAddress status pageState adapters
  | some .pageDown =>
    let (status, pageState) := pageMemActionPageDown pageState
    updateMovedPage oldPageAddress status pageState adapters
  | some .pageUp =>
    let (status, pageState) := pageMemActionPageUp pageState
    updateMovedPage oldPageAddress status pageState adapters
  | some .ranges => do
    adapters.memory.dumpValidRanges
    return (.success, pageCoreMarkForRedraw pageState)
  | some (.width width) =>
    return (.success,
      pageCoreMarkForRedraw
        { pageState with cursorState := pageCoreSetCursorWidth pageState.cursorState width })
  | none => return (.notFound, pageState)

/-- `PageMemControllerHandleKeyPress`. -/
def pageMemControllerHandleKeyPress (key : NxUiKey) (pageState : PageMemPageState)
    (adapters : AdapterManager W) : Prog W (NxStatus × PageMemPageState) :=
  if key.scanCode = nxUiScanEsc then return (.aborted, pageState)
  else
    let delta := keyDelta key pageState.cursorState.width
    if delta ≠ 0 then moveCursorByKey delta pageState adapters
    else handleCommand key.unicodeChar pageState adapters

/-! ## The loop -/

/-- The redraw at the top of the loop. -/
def redrawIfNeeded (adapters : AdapterManager W) (pageState : PageMemPageState) :
    Prog W PageMemPageState := do
  if pageState.needsRedraw then
    pageMemViewDrawPage adapters.tui adapters.memory pageState
    return { pageState with needsRedraw := false }
  else return pageState

/-- The errors the loop reports. -/
def isReported (status : NxStatus) : Bool :=
  nxUiError status && status ≠ .notFound && status ≠ .aborted

/-- The rest of the body: read a key and handle it; ESC ends the run. -/
def serveKey (adapters : AdapterManager W) (pageState : PageMemPageState) :
    Prog W (PageMemPageState ⊕ NxStatus) := do
  let key ← adapters.tui.readKey
  let (status, pageState) ← pageMemControllerHandleKeyPress key pageState adapters
  if status = .aborted ∧ key.scanCode = nxUiScanEsc then return .inr .success
  else if isReported status then
    adapters.error.reportError (wide "PageMem action failed") status
    return .inl pageState
  else return .inl pageState

/-- `PageMemControllerRun`, at most `fuel` times through the loop. -/
def pageMemControllerRun (adapters : AdapterManager W) (pageState : PageMemPageState)
    (fuel : ℕ) : Prog W NxStatus := do
  let (status, pageState) ← pageMemControllerInit pageState adapters
  if nxUiError status then return status
  else Prog.loop (redrawIfNeeded adapters) (serveKey adapters) fuel pageState

/-- The page state and the state of the platform when the run from `pageState`
    and `w` waits in `ReadKey` for its key number `n`, if it gets so far. -/
def runVisits (adapters : AdapterManager W) (n : ℕ) (pageState : PageMemPageState) (w : W) :
    Option (PageMemPageState × W) :=
  (Prog.done (pageMemControllerInit pageState adapters) w).bind fun p =>
    if nxUiError p.1.1 then none
    else Prog.visits (redrawIfNeeded adapters) (serveKey adapters) n p.1.2 p.2

end UefiNexus
