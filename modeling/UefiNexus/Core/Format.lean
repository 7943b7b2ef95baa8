/-
  UefiNexus model — text formatting (`Core/FormatEngine.c`,
  `Core/UefiMemoryType.c`).

  A character buffer is the list of its cells; its size is a separate argument,
  as in the source, and a write changes one cell.
-/
import UefiNexus.Base

namespace UefiNexus

/-- `mHexChars[i]`. -/
def hexChar (i : ℕ) : NxChar := (ascii "0123456789ABCDEF").getD i 0

/-! ## Format engine -/

/-- `FORMATTED_CELL`. -/
structure FormattedCell where
  buffer : List NxChar
  length : NxUintn
  deriving DecidableEq, Repr

/-- `PageCoreFormatByte`. -/
def pageCoreFormatByte (byte : NxU8) (cell : FormattedCell) : FormattedCell where
  buffer := ((cell.buffer.set 0 (hexChar ((byte >>> 4) &&& 0x0F).toNat)).set 1
    (hexChar (byte &&& 0x0F).toNat)).set 2 0
  length := 2

/-- The loop of `PageCoreFormatBytes` over the bytes from `Index` on; returns the
    buffer and the final `Offset`. -/
def putSpacedBytes (resultSize : ℕ) :
    List NxU8 → FormattedCell → List NxChar × ℕ → List NxChar × ℕ
  | [], _, s => s
  | byte :: bytes, cell, s =>
    if s.2 + 3 < resultSize then
      let cell := pageCoreFormatByte byte cell
      putSpacedBytes resultSize bytes cell
        (((s.1.set s.2 (cell.buffer.getD 0 0)).set (s.2 + 1) (cell.buffer.getD 1 0)).set
          (s.2 + 2) (chr ' '), s.2 + 3)
    else s

/-- `PageCoreFormatBytes`, on the `Size` bytes of `Buffer`; `none` for a `NULL`
    pointer. -/
def pageCoreFormatBytes (buffer : Option (List NxU8)) (result : List NxChar) (resultSize : ℕ) :
    List NxChar :=
  if resultSize = 0 then result
  else
    let result := result.set 0 0
    match buffer with
    | none => result
    | some bytes =>
      -- the cell is not initialized
      let s := putSpacedBytes resultSize bytes ⟨List.replicate cellStrMax (BitVec.allOnes 8), 0⟩
        (result, 0)
      let offset := if s.2 > 0 ∧ s.2 < resultSize then s.2 - 1 else s.2
      s.1.set offset 0

/-- `PageCoreGetCellDisplayWidth`. -/
def pageCoreGetCellDisplayWidth (width : NxUintn) : NxUintn := width * 2 + 1

/-- The two digits of a byte, written at `pos`. -/
def putHexByte (byte : NxU8) (s : List NxChar × ℕ) : List NxChar × ℕ :=
  ((s.1.set s.2 (hexChar ((byte >>> 4) &&& 0x0F).toNat)).set (s.2 + 1)
    (hexChar (byte &&& 0x0F).toNat), s.2 + 2)

/-- The loop `Index = Width - 1, …, 0` of the two cell formatters: the bytes
    `byteAt Index`, most significant first. -/
def putHexBytes (byteAt : ℕ → NxU8) : ℕ → List NxChar × ℕ → List NxChar × ℕ
  | 0, s => s
  | n + 1, s => putHexBytes byteAt n (putHexByte (byteAt n) s)

/-- What `PageCoreFormatValueLE` and `PageCoreFormatOffsetHeader` share: the
    bytes of a cell, a blank and the terminator.  Returns the buffer and the
    number of characters written. -/
def formatCell (byteAt : ℕ → NxU8) (width : NxUintn) (buffer : List NxChar) (bufferSize : ℕ) :
    List NxChar × ℕ :=
  if bufferSize = 0 then (buffer, 0)
  else
    let buffer := buffer.set 0 0
    let required := width.toNat * 2 + 2
    if bufferSize < required then (buffer, 0)
    else
      let s := putHexBytes byteAt width.toNat (buffer, 0)
      ((s.1.set s.2 (chr ' ')).set (s.2 + 1) 0, s.2 + 1)

/-- `PageCoreFormatValueLE`. -/
def pageCoreFormatValueLE (value : NxU64) (width : NxUintn) (buffer : List NxChar)
    (bufferSize : ℕ) : List NxChar × ℕ :=
  formatCell (fun index => ((value >>> (index * 8)) &&& 0xFF).setWidth 8) width buffer bufferSize

/-- `PageCoreFormatOffsetHeader`. -/
def pageCoreFormatOffsetHeader (offset width : NxUintn) (buffer : List NxChar)
    (bufferSize : ℕ) : List NxChar × ℕ :=
  formatCell (fun index => (offset + BitVec.ofNat 64 index).setWidth 8) width buffer bufferSize

/-- The loop of `PageCoreFormatAddress` from `Index` on. -/
def putAddressDigits (address : NxU64) : ℕ → ℕ → List NxChar → List NxChar
  | 0, _, buffer => buffer
  | n + 1, index, buffer =>
    putAddressDigits address n (index + 1)
      (buffer.set (index + 2) (hexChar ((address >>> ((15 - index) * 4)) &&& 0x0F).toNat))

/-- `PageCoreFormatAddress`. -/
def pageCoreFormatAddress (address : NxU64) (buffer : List NxChar) (bufferSize : ℕ) :
    List NxChar :=
  if bufferSize < 19 then
    if bufferSize > 0 then buffer.set 0 0 else buffer
  else
    let buffer := (buffer.set 0 (chr '0')).set 1 (chr 'x')
    (putAddressDigits address 16 0 buffer).set 18 0

/-! ## Memory type names -/

/-- `gUefiMemoryTypeNames`. -/
def uefiMemoryTypeNames : List (List NxChar) :=
  [ascii "EfiReservedMemoryType", ascii "EfiLoaderCode", ascii "EfiLoaderData",
    ascii "EfiBootServicesCode", ascii "EfiBootServicesData", ascii "EfiRuntimeServicesCode",
    ascii "EfiRuntimeServicesData", ascii "EfiConventionalMemory", ascii "EfiUnusableMemory",
    ascii "EfiACPIReclaimMemory", ascii "EfiACPIMemoryNVS", ascii "EfiMemoryMappedIO",
    ascii "EfiMemoryMappedIOPortSpace", ascii "EfiPalCode"]

/-- The loop of `CopyString` from `Index` on; returns the buffer and the final
    `Index`. -/
def copyStringLoop (destinationSize : ℕ) : List NxChar → ℕ → List NxChar → List NxChar × ℕ
  | [], index, destination => (destination, index)
  | c :: source, index, destination =>
    if index + 1 < destinationSize then
      copyStringLoop destinationSize source (index + 1) (destination.set index c)
    else (destination, index)

/-- `CopyString`. -/
def copyString (destination : List NxChar) (destinationSize : ℕ) (source : List NxChar) :
    List NxChar :=
  if destinationSize = 0 then destination
  else
    let s := copyStringLoop destinationSize (cstr source) 0 destination
    s.1.set s.2 0

/-- The `do … while` loop that stores the decimal digits of a value, least
    significant first, into an array of `capacity` digits. -/
def decimalDigits {n : ℕ} (value : BitVec n) : ℕ → List NxChar
  | 0 => []
  | capacity + 1 =>
    let digit := BitVec.ofNat 8 ('0'.toNat + value.toNat % 10)
    let rest := BitVec.ofNat n (value.toNat / 10)
    if rest ≠ 0 then digit :: decimalDigits rest capacity else [digit]

/-- The loop of `FormatUnknownType` that writes the digits from the last one
    stored to the first. -/
def putUnknownDigits (bufferSize : ℕ) : List NxChar → List NxChar × ℕ → List NxChar × ℕ
  | [], s => s
  | c :: digits, s =>
    if s.2 + 1 < bufferSize then putUnknownDigits bufferSize digits (s.1.set s.2 c, s.2 + 1)
    else s

/-- `FormatUnknownType`. -/
def formatUnknownType (type : NxU32) (buffer : List NxChar) (bufferSize : ℕ) : List NxChar :=
  if bufferSize = 0 then buffer
  else
    let buffer := copyString buffer bufferSize (ascii "Unknown(")
    if 8 ≥ bufferSize then buffer.set (bufferSize - 1) 0
    else
      let s := putUnknownDigits bufferSize (decimalDigits type 10).reverse (buffer, 8)
      let s := if s.2 + 1 < bufferSize then (s.1.set s.2 (chr ')'), s.2 + 1) else s
      s.1.set s.2 0

/-- `UefiMemoryTypeFormat`. -/
def uefiMemoryTypeFormat (type : NxU32) (name : List NxChar) (nameBufferSize : ℕ) :
    List NxChar :=
  match uefiMemoryTypeNames[type.toNat]? with
  | some typeName => copyString name nameBufferSize typeName
  | none => formatUnknownType type name nameBufferSize

/-- `UefiMemoryAccessFormat`. -/
def uefiMemoryAccessFormat (access : NxMemoryAccess) (buffer : List NxChar) (bufferSize : ℕ) :
    List NxChar :=
  if bufferSize = 0 then buffer
  else if ¬ access.accessKnown then copyString buffer bufferSize (ascii "Unknown")
  else if access.readAllowed then
    copyString buffer bufferSize (if access.writeAllowed then ascii "R/W" else ascii "R/-")
  else if access.writeAllowed then copyString buffer bufferSize (ascii "-/W")
  else copyString buffer bufferSize (ascii "--")

end UefiNexus
