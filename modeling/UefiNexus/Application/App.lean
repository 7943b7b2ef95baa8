/-
  UefiNexus model — the application (`UefiNexus.c`), its registry of pages
  (`PageRegistry.c`) and the entry of PageMem (`PageMemEntry.c`).

  The console output device keeps a mode: it shows the cursor or not, and it has
  an attribute.  What the mode is after the requests so far is up to the device
  (`AppFirmware.ModeDocumented` is what UEFI says of it).

  The local variables of the source are `AppContext`.  `ASSERT (App != NULL)`
  always holds, as the caller passes the address of a local variable.
-/
import UefiNexus.Application.PageMenu
import UefiNexus.PageMem.Controller
import UefiNexus.Uefi.Adapters

namespace UefiNexus

/-- The firmware and the console output device the application finds. -/
structure AppFirmware extends Firmware where
  /-- `gST` and `gST->ConOut` are not `NULL`. -/
  conOut : Bool
  /-- `ConOut->Mode->CursorVisible` after the requests to show or hide the cursor. -/
  cursorVisible : List Bool → Bool
  /-- `ConOut->Mode->Attribute` after the requests to the console. -/
  attr : List ConsoleOp → BitVec 32
  /-- The page state PageMem finds in its local variable, which is not
      initialized, after so many calls of `InitMemoryMap`. -/
  stack : ℕ → PageMemPageState

/-- The state of the application: the machine, and the requests to show or hide
    the cursor. -/
structure AppWorld where
  machine : UefiWorld
  cursor : List Bool

/-- `ConOut->Mode->CursorVisible`. -/
def modeCursorVisible (fw : AppFirmware) (w : AppWorld) : Bool := fw.cursorVisible w.cursor

/-- `ConOut->Mode->Attribute`. -/
def modeAttribute (fw : AppFirmware) (w : AppWorld) : BitVec 32 := fw.attr w.machine.console

/-- The device keeps its mode as UEFI documents it.  It has a cursor to show and hide,
    or refuses to; it takes the attributes of its colours, which have seven bits, and
    refuses all others, and nothing else changes the attribute. -/
structure AppFirmware.ModeDocumented (fw : AppFirmware) : Prop where
  cursor : (∀ cursor visible, fw.cursorVisible (cursor ++ [visible]) = visible) ∨
    ∀ cursor visible, fw.cursorVisible (cursor ++ [visible]) = fw.cursorVisible cursor
  attr_le : fw.attr [] ≤ 0x7F
  setAttribute : ∀ ops attr, fw.attr (ops ++ [.setAttribute attr]) =
    if attr ≤ 0x7F then attr.setWidth 32 else fw.attr ops
  others : ∀ ops op, (∀ attr, op ≠ .setAttribute attr) →
    fw.attr (ops ++ [op]) = fw.attr ops

/-- A program of the machine, run by the application. -/
def onMachine {α : Type} (m : Prog UefiWorld α) : Prog AppWorld α := fun w =>
  ((m w.machine).1, { w with machine := (m w.machine).2 })

/-- `TuiEnableCursor`. -/
def tuiEnableCursor (visible : Bool) : Prog AppWorld Unit :=
  Prog.modify fun w => { w with cursor := w.cursor ++ [visible] }

/-- `EFI_UNSUPPORTED`. -/
def efiUnsupported : EfiStatus := encodeError 3

/-! ## Pages -/

/-- `PageMemLayered`: `AdapterManagerInit` finds all adapters, which are static
    variables. -/
def pageMemLayered (fw : AppFirmware) (fuel : ℕ) : Prog AppWorld Unit := do
  let w ← Prog.get
  let _ ← onMachine
    (pageMemControllerRun (uefiAdapters fw.toFirmware) (fw.stack w.machine.inits) fuel)

theorem mPages_fits : 1 < 2 ^ 60 := by decide

/-- `mPages`. -/
def mPages (fw : AppFirmware) (fuel : ℕ) : PageRegistry AppWorld where
  pages := [⟨wide "Memory", some (pageMemLayered fw fuel)⟩]
  fits := mPages_fits

/-- `GetPageRegistry`. -/
def getPageRegistry (fw : AppFirmware) (fuel : ℕ) : Option (PageRegistry AppWorld) :=
  some (mPages fw fuel)

/-! ## The application -/

/-- `APP_CONTEXT`, the fields the application reads. -/
structure AppContext where
  cursorVisible : Bool
  attr : BitVec 32

/-- `AppInit`. -/
def appInit (fw : AppFirmware) : Prog AppWorld (EfiStatus × Option AppContext) :=
  if ¬ fw.conOut then pure (efiUnsupported, none)
  else do
    let w ← Prog.get
    let app : AppContext := ⟨modeCursorVisible fw w, modeAttribute fw w⟩
    onMachine tuiClearScreen
    tuiEnableCursor false
    return (efiSuccess, some app)

/-- The entry point `AppRun` calls for the index `PageMenu` has returned. -/
def entryPointAt (sel : NxIntn) (registry : PageRegistry AppWorld) : Option (Prog AppWorld Unit) :=
  if sel < registry.pageCount then (registry.pages[sel.toNat]?).bind (·.entryPoint) else none

/-- The call of an entry point, which may be missing. -/
def callEntryPoint : Option (Prog AppWorld Unit) → Prog AppWorld Unit
  | some entryPoint => entryPoint
  | none => pure ()

/-- The body of `AppRun`'s loop: the menu, and the page it has selected. -/
def appRunServe (registry : Option (PageRegistry AppWorld)) :
    Prog AppWorld (Unit ⊕ EfiStatus) := do
  let sel ← onMachine (pageMenu registry)
  if sel.slt 0 then return .inr efiSuccess
  else
    callEntryPoint (registry.bind (entryPointAt sel))
    return .inl ()

/-- `AppRun`, at most `fuel` times through the loop. -/
def appRun (registry : Option (PageRegistry AppWorld)) (fuel : ℕ) : Prog AppWorld EfiStatus :=
  Prog.loop pure (fun _ => appRunServe registry) fuel ()

/-- `AppDeinit`: `TuiSetAttribute` takes the attribute as an `UINTN`. -/
def appDeinit (fw : AppFirmware) (app : AppContext) : Prog AppWorld Unit :=
  if ¬ fw.conOut then pure ()
  else do
    tuiEnableCursor app.cursorVisible
    onMachine (tuiSetAttribute (app.attr.signExtend 64))
    onMachine tuiClearScreen

/-- `UefiNexusMain`, with the pages `GetPageRegistry` returns. -/
def uefiNexusMain (fw : AppFirmware) (registry : Option (PageRegistry AppWorld)) (fuel : ℕ) :
    Prog AppWorld EfiStatus := do
  match ← appInit fw with
  | (status, none) => return status
  | (_, some app) =>
    let status ← appRun registry fuel
    appDeinit fw app
    return status

end UefiNexus
