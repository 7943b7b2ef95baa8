/-
  UefiNexus model — base types (`Core/Base.h`, `PageMemCoreTypes.h`, and the UEFI
  types of the memory library).

  Addresses, values and the `UINTN` fields of the page state are 64-bit words
  (the platforms are X64 and AARCH64) and wrap around; counters of array
  elements and sizes of buffers are natural numbers.  Out parameters are part
  of the result.
-/
import Mathlib.Algebra.Group.Nat.Defs

namespace UefiNexus

abbrev NxU8 := BitVec 8
abbrev NxU32 := BitVec 32
abbrev NxU64 := BitVec 64
abbrev NxIntn := BitVec 64
abbrev NxUintn := BitVec 64
abbrev NxBool := Bool

instance lawfulBEq_nxU32 : LawfulBEq NxU32 := inferInstance

/-- `NX_CHAR`, a narrow character. -/
abbrev NxChar := BitVec 8

/-- `NX_UI_CHAR` and `CHAR16`, a wide character. -/
abbrev NxUiChar := BitVec 16

/-- `MAX_UINT64`. -/
def maxUint64 : NxU64 := ~~~0#64

/-! ## Characters and strings -/

/-- A wide character literal. -/
def L (c : Char) : NxUiChar := BitVec.ofNat 16 c.toNat

/-- A wide string literal. -/
def wide (s : String) : List NxUiChar := s.toList.map L

/-- A narrow character literal. -/
def chr (c : Char) : NxChar := BitVec.ofNat 8 c.toNat

/-- A narrow string literal. -/
def ascii (s : String) : List NxChar := s.toList.map chr

/-- The string a character array holds: the characters before the first NUL. -/
def cstr {n : ℕ} (buffer : List (BitVec n)) : List (BitVec n) := buffer.takeWhile (· ≠ 0)

/-! ## Framework types -/

/-- `NX_STATUS` and `NX_UI_STATUS`. -/
inductive NxStatus where
  | success
  | invalidParameter
  | notFound
  | accessDenied
  | aborted
  | bufferTooSmall
  | deviceError
  deriving DecidableEq, Repr

/-- The numeric value of a status. -/
def NxStatus.code : NxStatus → NxU32
  | success => 0
  | invalidParameter => 2
  | notFound => 14
  | accessDenied => 15
  | aborted => 21
  | bufferTooSmall => 5
  | deviceError => 7

/-- `NX_UI_ERROR`. -/
def nxUiError (status : NxStatus) : Bool := status ≠ .success

/-- `NX_MEMORY_TYPE`. -/
inductive NxMemoryType where
  | reserved
  | loaderCode
  | loaderData
  | bootServicesCode
  | bootServicesData
  | runtimeServicesCode
  | runtimeServicesData
  | conventional
  | acpiReclaim
  | acpiNvs
  | mmio
  | other
  deriving DecidableEq, Repr

/-- `NX_MEMORY_DESCRIPTOR`. -/
structure NxMemoryDescriptor where
  type : NxMemoryType
  physicalStart : NxU64
  numberOfPages : NxU64
  attr : NxU64
  uefiType : NxU32
  deriving DecidableEq, Repr

/-- `NX_MEMORY_ACCESS`. -/
structure NxMemoryAccess where
  queryStatus : NxU64
  attributes : NxU64
  readAllowed : NxBool
  writeAllowed : NxBool
  executeAllowed : NxBool
  accessKnown : NxBool
  deriving DecidableEq, Repr

/-- `NX_UI_KEY`. -/
structure NxUiKey where
  scanCode : NxU32
  unicodeChar : NxUiChar
  deriving DecidableEq, Repr

def nxUiScanUp : NxU32 := 0x0001
def nxUiScanDown : NxU32 := 0x0002
def nxUiScanRight : NxU32 := 0x0003
def nxUiScanLeft : NxU32 := 0x0004
def nxUiScanEsc : NxU32 := 0x0017

/-! ## PageMem types -/

def pageSize : NxUintn := 256
def cols : NxUintn := 16
def defaultColumns : NxUintn := 80

def pageMemTitleRow : NxUintn := 0
def pageMemTypeRow : NxUintn := 1
def pageMemHeaderRow : NxUintn := 2
def pageMemDataRow : NxUintn := 3
def pageMemStatusRow : NxUintn := 19
def pageMemInfoRow : NxUintn := pageMemStatusRow
def pageMemHelpRow : NxUintn := 20
def pageMemHelp2Row : NxUintn := 21
def pageMemGotoPromptColumn : NxUintn := 25

def pageMemHelpText : List NxUiChar := wide "Arrows: Move  N/P: Page"

/-- `CELL_STR_MAX(8)`. -/
def cellStrMax : ℕ := 18

/-- `PAGEMEM_CURSOR_STATE`. -/
structure PageMemCursorState where
  address : NxU64
  offset : NxUintn
  width : NxUintn
  deriving DecidableEq, Repr

/-- `PAGEMEM_ADDRESS_MAP`: the descriptor array, `none` for a `NULL` pointer. -/
structure PageMemAddressMap where
  descriptors : Option (List NxMemoryDescriptor)
  deriving DecidableEq, Repr

/-- `PAGEMEM_STATE`. -/
inductive PageMemState where
  | viewing
  | editing
  | goto
  deriving DecidableEq, Repr

/-- `PAGEMEM_PAGE_STATE`. -/
structure PageMemPageState where
  currentState : PageMemState
  cursorState : PageMemCursorState
  addressMap : PageMemAddressMap
  pageUefiMemoryType : NxU32
  pageHasMemoryDescriptor : NxBool
  pageAccess : NxMemoryAccess
  needsRedraw : NxBool
  deriving DecidableEq, Repr

/-! ## UEFI types -/

abbrev EfiStatus := BitVec 64

/-- `EFI_ERROR`: the error codes have the highest bit set. -/
def efiError (status : EfiStatus) : Bool := status.msb

/-- `ENCODE_ERROR`. -/
def encodeError (code : ℕ) : EfiStatus := BitVec.ofNat 64 (2 ^ 63 + code)

def efiSuccess : EfiStatus := 0
def efiInvalidParameter : EfiStatus := encodeError 2
def efiBufferTooSmall : EfiStatus := encodeError 5
def efiNotFound : EfiStatus := encodeError 14
def efiAccessDenied : EfiStatus := encodeError 15
def efiNoMapping : EfiStatus := encodeError 17
def efiAborted : EfiStatus := encodeError 21

def efiMemoryRp : NxU64 := 0x2000
def efiMemoryXp : NxU64 := 0x4000
def efiMemoryRo : NxU64 := 0x20000

/-- `EFI_MEMORY_DESCRIPTOR`, the fields the program reads. -/
structure EfiMemoryDescriptor where
  type : NxU32
  physicalStart : NxU64
  numberOfPages : NxU64
  attr : NxU64
  deriving DecidableEq, Repr

/-- `EFI_MEMORY_ACCESS_INFO`. -/
structure EfiMemoryAccessInfo where
  queryStatus : EfiStatus
  attributes : NxU64
  readAllowed : Bool
  writeAllowed : Bool
  executeAllowed : Bool
  accessKnown : Bool
  deriving DecidableEq, Repr

/-- `EFI_INPUT_KEY`. -/
structure EfiInputKey where
  scanCode : BitVec 16
  unicodeChar : NxUiChar
  deriving DecidableEq, Repr

/-- Physical memory, byte by byte. -/
abbrev PhysMem := NxU64 → NxU8

end UefiNexus
