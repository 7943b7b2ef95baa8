/-
  UefiNexus model — the machine under the UEFI adapters, and the text UI library
  (`TuiScreen.c`, `TuiInput.c`).

  A `UefiWorld` holds the static variables of NexusMemLib, the bridge and the
  memory adapter, physical memory, the keystrokes still to come and the requests
  made to the console so far.  `Firmware` is what stays the same: the boot
  services, the console mode, and EDK II's `StrHexToUint64`.

  The variables of the tool, the buffer behind `gMemMap` and its stack are held
  apart from physical memory: a `MemWrite` of the user is taken not to hit them.
  (On a machine they are pages of the map like any others, and a user who edits
  them edits the tool.)

  `TuiReadKey` waits until a keystroke is read; when no keystroke is left it
  never returns.
-/
import UefiNexus.Lib.Prog
import UefiNexus.NexusMemLib.MemAccess

namespace UefiNexus

/-- `NX_BRIDGE_MEMORY_DESCRIPTOR`. -/
structure NxBridgeMemoryDescriptor where
  type : NxU32
  physicalStart : NxU64
  numberOfPages : NxU64
  attr : NxU64
  deriving DecidableEq, Repr

/-- An argument of `Print`. -/
inductive PrintArg where
  | string (s : List NxUiChar)
  | asciiString (s : List NxChar)
  | char (c : NxUiChar)
  | number (n : NxU64)
  deriving DecidableEq, Repr

/-- A request to the console: the output protocol's, and `Print`. -/
inductive ConsoleOp where
  | clearScreen
  | setAttribute (attr : NxUintn)
  | setCursorPosition (column row : NxUintn)
  | print (format : List NxUiChar) (args : List PrintArg)
  deriving DecidableEq, Repr

/-- The services around the program. -/
structure Firmware where
  bootServices : BootServices
  /-- The services during the `n`-th `InitMemoryMap`. -/
  mapServices : ℕ → MapServices
  /-- `QueryMode` of the console output: its status, and the columns and rows
      the caller finds in its variables. -/
  queryMode : EfiStatus × NxUintn × NxUintn
  strHexToUint64 : List NxUiChar → NxU64

/-- The state of the machine.  `memory` is what `MemRead` and `MemWrite` reach; the
    other fields do not lie in it. -/
structure UefiWorld where
  memLib : MemLib
  /-- The number of calls of `InitMemoryMap`. -/
  inits : ℕ
  gBridgeDescriptors : List NxBridgeMemoryDescriptor
  gBridgeMemoryMapSize : NxUintn
  gBridgeDescriptorSize : NxUintn
  gCoreDescriptors : List NxMemoryDescriptor
  gCoreDescriptorCount : NxUintn
  memory : PhysMem
  keys : List EfiInputKey
  console : List ConsoleOp

/-- The number of entries of `gBridgeDescriptors` and of `gCoreDescriptors`. -/
def maxDescriptors : ℕ := 128

/-- `sizeof (NX_BRIDGE_MEMORY_DESCRIPTOR)`. -/
def bridgeDescriptorSize : NxUintn := 32

/-- The machine at boot: the static variables have their initial values. -/
def UefiWorld.boot (memory : PhysMem) (keys : List EfiInputKey) : UefiWorld where
  memLib := .initial
  inits := 0
  gBridgeDescriptors := List.replicate maxDescriptors ⟨0, 0, 0, 0⟩
  gBridgeMemoryMapSize := 0
  gBridgeDescriptorSize := bridgeDescriptorSize
  gCoreDescriptors := List.replicate maxDescriptors ⟨.reserved, 0, 0, 0, 0⟩
  gCoreDescriptorCount := 0
  memory := memory
  keys := keys
  console := []

/-! ## The screen -/

/-- Make a request to the console. -/
def consoleRequest (op : ConsoleOp) : Prog UefiWorld Unit :=
  Prog.modify fun w => { w with console := w.console ++ [op] }

/-- `Print`. -/
def print (format : List NxUiChar) (args : List PrintArg) : Prog UefiWorld Unit :=
  consoleRequest (.print format args)

/-- `TuiClearScreen`. -/
def tuiClearScreen : Prog UefiWorld Unit := consoleRequest .clearScreen

/-- `TuiSetAttribute`. -/
def tuiSetAttribute (attr : NxUintn) : Prog UefiWorld Unit := consoleRequest (.setAttribute attr)

/-- `TuiSetCursorPosition`. -/
def tuiSetCursorPosition (column row : NxUintn) : Prog UefiWorld Unit :=
  consoleRequest (.setCursorPosition column row)

/-! ## Input -/

def scanEsc : BitVec 16 := 0x0017
def charBackspace : NxUiChar := 0x0008
def charCarriageReturn : NxUiChar := 0x000D

/-- `TuiReadKey`. -/
def tuiReadKey : Prog UefiWorld EfiInputKey := fun w =>
  match w.keys with
  | [] => (none, w)
  | key :: keys => (some key, { w with keys := keys })

/-- `TuiWaitForKeyPress`. -/
def tuiWaitForKeyPress : Prog UefiWorld Unit := do
  let _ ← tuiReadKey

/-- The characters `TuiReadHex` takes as digits. -/
def isHexDigit (c : NxUiChar) : Bool :=
  (c ≥ L '0' && c ≤ L '9') || (c ≥ L 'a' && c ≤ L 'f') || (c ≥ L 'A' && c ≤ L 'F')

/-- `sizeof (Buffer) / sizeof (Buffer[0])` in `TuiReadHex`. -/
def hexBufferSize : ℕ := 32

/-- The end of the body of `TuiReadHex`'s loop: a digit or a backspace, on
    `Buffer` and `Index`. -/
def editHexBuffer (maxDigits : ℕ) (key : EfiInputKey) (buffer : List NxUiChar) (index : ℕ) :
    Prog UefiWorld (List NxUiChar × ℕ) := do
  let s ←
    if isHexDigit key.unicodeChar ∧ index < maxDigits then do
      print (wide "%c") [.char key.unicodeChar]
      pure (buffer.set index key.unicodeChar, index + 1)
    else pure (buffer, index)
  if key.unicodeChar = charBackspace ∧ s.2 > 0 then
    print [charBackspace, L ' ', charBackspace] []
    pure (s.1, s.2 - 1)
  else pure s

/-- The loop of `TuiReadHex`; each turn takes a keystroke, so the number of
    keystrokes left is fuel enough. -/
def tuiReadHexLoop (strHexToUint64 : List NxUiChar → NxU64) (maxDigits : ℕ) :
    ℕ → List NxUiChar → ℕ → Prog UefiWorld (Bool × NxU64)
  | 0, _, _ => Prog.hang
  | n + 1, buffer, index => do
    let key ← tuiReadKey
    if key.scanCode = scanEsc then return (false, 0)
    else if key.unicodeChar = charCarriageReturn then
      let buffer := buffer.set index 0
      return (true, strHexToUint64 (cstr buffer))
    else
      let (buffer, index) ← editHexBuffer maxDigits key buffer index
      tuiReadHexLoop strHexToUint64 maxDigits n buffer index

/-- `TuiReadHex`, with the `*Value` it stores. -/
def tuiReadHex (fw : Firmware) (maxDigits : NxUintn) : Prog UefiWorld (Bool × NxU64) := fun w =>
  let maxDigits := if maxDigits.toNat ≥ hexBufferSize then hexBufferSize - 1 else maxDigits.toNat
  -- the buffer is not initialized
  tuiReadHexLoop fw.strHexToUint64 maxDigits w.keys.length
    (List.replicate hexBufferSize (BitVec.allOnes 16)) 0 w

end UefiNexus
