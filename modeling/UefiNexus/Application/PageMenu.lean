/-
  UefiNexus model — the page menu (`PageMenu.h`, `PageMenu.c`).

  The pages of a menu are programs over the state `W` of the application.  The
  descriptors are 16 bytes each, so an array has less than `2 ^ 60` of them and
  `PageCount` is the length of the list.
-/
import UefiNexus.Uefi.World

namespace UefiNexus

/-- `NEXUS_PAGE_DESCRIPTOR`: the entry point is `none` for a `NULL` pointer. -/
structure NexusPageDescriptor (W : Type) where
  title : List NxUiChar
  entryPoint : Option (Prog W Unit)

/-- An array of page descriptors. -/
structure PageRegistry (W : Type) where
  pages : List (NexusPageDescriptor W)
  fits : pages.length < 2 ^ 60

variable {W : Type}

/-- `PageCount`. -/
def PageRegistry.pageCount (registry : PageRegistry W) : NxUintn :=
  BitVec.ofNat 64 registry.pages.length

def scanUp : BitVec 16 := 0x0001
def scanDown : BitVec 16 := 0x0002

/-- The line of a page in the menu. -/
def menuLine (selected : NxUintn) (page : NexusPageDescriptor W) (index : ℕ) : ConsoleOp :=
  let number : NxU64 := ((BitVec.ofNat 64 index + 1).setWidth 32).setWidth 64
  if BitVec.ofNat 64 index = selected then
    .print (wide "> %u. %s\n") [.number number, .string page.title]
  else
    .print (wide "  %u. %s\n") [.number number, .string page.title]

/-- `DrawMenu`. -/
def drawMenu (registry : PageRegistry W) (selected : NxUintn) : Prog UefiWorld Unit := do
  tuiClearScreen
  print (wide "UefiNexus Tool Menu\n\n") []
  Prog.each (fun p => consoleRequest (menuLine selected p.1 p.2)) registry.pages.zipIdx
  print (wide "\nUp/Down: Navigate  Enter: Select  Esc: Exit\n") []

/-- The body of `PageMenu`'s loop: the selection it goes on with, or the index it
    returns. -/
def pageMenuServe (registry : PageRegistry W) (selected : NxUintn) :
    Prog UefiWorld (NxUintn ⊕ NxIntn) := do
  let key ← tuiReadKey
  if key.scanCode = scanUp ∧ selected > 0 then
    drawMenu registry (selected - 1)
    return .inl (selected - 1)
  else if key.scanCode = scanDown ∧ selected < registry.pageCount - 1 then
    drawMenu registry (selected + 1)
    return .inl (selected + 1)
  else if key.unicodeChar ≥ L '1' ∧ key.unicodeChar ≤ L '9' ∧
      (key.unicodeChar - L '1').setWidth 64 < registry.pageCount then
    return .inr ((key.unicodeChar - L '1').setWidth 64)
  else if key.unicodeChar = charCarriageReturn then return .inr selected
  else if key.scanCode = scanEsc then return .inr (-1)
  else return .inl selected

/-- `PageMenu`; each turn of the loop takes a keystroke, so the number of
    keystrokes left is fuel enough. -/
def pageMenu : Option (PageRegistry W) → Prog UefiWorld NxIntn
  | none => pure (-1)
  | some registry =>
    if registry.pageCount = 0 then pure (-1)
    else do
      drawMenu registry 0
      let w ← Prog.get
      Prog.loop pure (pageMenuServe registry) w.keys.length 0

end UefiNexus
