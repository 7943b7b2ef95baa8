/-
  UefiNexus model — the UEFI bridge (`UefiBridge.c`) and the list of memory
  ranges it shows (`DumpMemoryRanges` of `MemMap.c`).
-/
import UefiNexus.Uefi.World
import UefiNexus.Core.Format

namespace UefiNexus

/-- `EfiStatusToUiStatus`. -/
def efiStatusToUiStatus (status : EfiStatus) : NxStatus :=
  if ¬ efiError status then .success
  else if status = efiInvalidParameter then .invalidParameter
  else if status = efiNotFound then .notFound
  else if status = efiAccessDenied then .accessDenied
  else if status = efiAborted then .aborted
  else if status = efiBufferTooSmall then .bufferTooSmall
  else .deviceError

/-! ## Memory map and access -/

/-- The entry of `gBridgeDescriptors` for an EFI descriptor. -/
def toBridgeDescriptor (source : EfiMemoryDescriptor) : NxBridgeMemoryDescriptor :=
  ⟨source.type, source.physicalStart, source.numberOfPages, source.attr⟩

/-- `UefiBridgeInitMemoryMap`. -/
def uefiBridgeInitMemoryMap (fw : Firmware) : Prog UefiWorld NxStatus := fun w =>
  let (status, lib) := initMemoryMap fw.bootServices (fw.mapServices w.inits) w.memLib
  let w := { w with memLib := lib, inits := w.inits + 1 }
  if efiError status then (some (efiStatusToUiStatus status), w)
  else if lib.gMemMap.isNone ∨ lib.gDescSize = 0 then
    (some .notFound, { w with gBridgeMemoryMapSize := 0 })
  else
    -- the count is clamped to the size of the array
    let copied := (lib.descriptors.take maxDescriptors).map toBridgeDescriptor
    (some .success,
      { w with
        gBridgeDescriptors := copied ++ w.gBridgeDescriptors.drop copied.length
        gBridgeMemoryMapSize := BitVec.ofNat 64 copied.length * bridgeDescriptorSize
        gBridgeDescriptorSize := bridgeDescriptorSize })

/-- `UefiBridgeMemRead`, with the `*Value` it stores. -/
def uefiBridgeMemRead (fw : Firmware) (address : NxU64) (width : NxUintn) :
    Prog UefiWorld (NxStatus × NxU64) := fun w =>
  let (status, value, lib) := memRead fw.bootServices w.memLib w.memory address width (some 0)
  let w := { w with memLib := lib }
  if efiError status then (some (efiStatusToUiStatus status, 0), w)
  else (some (.success, value.getD 0), w)

/-- `UefiBridgeMemWrite`. -/
def uefiBridgeMemWrite (fw : Firmware) (address : NxU64) (width : NxUintn) (value : NxU64) :
    Prog UefiWorld NxStatus := fun w =>
  let (status, memory, lib) := memWrite fw.bootServices w.memLib w.memory address width value
  (some (efiStatusToUiStatus status), { w with memLib := lib, memory := memory })

/-- The `NX_MEMORY_ACCESS` of an `EFI_MEMORY_ACCESS_INFO`. -/
def toMemoryAccess (accessInfo : EfiMemoryAccessInfo) : NxMemoryAccess :=
  ⟨accessInfo.queryStatus, accessInfo.attributes, accessInfo.readAllowed,
    accessInfo.writeAllowed, accessInfo.executeAllowed, accessInfo.accessKnown⟩

/-- `UefiBridgeQueryMemoryAccess`, with the `*Access` it stores. -/
def uefiBridgeQueryMemoryAccess (fw : Firmware) (baseAddress length : NxU64) :
    Prog UefiWorld NxMemoryAccess := fun w =>
  let (_, accessInfo, lib) := queryMemoryAccess fw.bootServices w.memLib baseAddress length
  (some (toMemoryAccess accessInfo), { w with memLib := lib })

/-! ## The list of ranges -/

/-- The access `DumpMemoryRanges` shows for a descriptor. -/
def rangeAccess (fw : Firmware) (desc : EfiMemoryDescriptor) : Prog UefiWorld NxMemoryAccess :=
  if desc.numberOfPages > 0 ∧ desc.numberOfPages ≤ maxUint64 >>> 12 then
    uefiBridgeQueryMemoryAccess fw desc.physicalStart (desc.numberOfPages <<< 12)
  else pure ⟨efiNoMapping, 0, false, false, false, false⟩

/-- The heading of the list. -/
def dumpHeading : Prog UefiWorld Unit := do
  print (wide "Memory ranges\n\n") []
  print (wide "%-28ls %-6ls %ls %ls\n")
    [.string (wide "Type"), .string (wide "Access"), .string (wide "Start"),
      .string (wide "Pages")]

/-- The line of a descriptor. -/
def dumpLine (fw : Firmware) (desc : EfiMemoryDescriptor) : Prog UefiWorld Unit := do
  let typeName := uefiMemoryTypeFormat desc.type (List.replicate 32 (BitVec.allOnes 8)) 32
  let access ← rangeAccess fw desc
  let accessText := uefiMemoryAccessFormat access (List.replicate 16 (BitVec.allOnes 8)) 16
  print (wide "%-28a %-6a %016llX %llu\n")
    [.asciiString (cstr typeName), .asciiString (cstr accessText), .number desc.physicalStart,
      .number desc.numberOfPages]

/-- The loop of `DumpMemoryRanges`: the number of lines printed, or `none` when
    ESC has ended the list. -/
def dumpRangesFrom (fw : Firmware) (showAllTypes : Bool) :
    List EfiMemoryDescriptor → ℕ → Prog UefiWorld (Option ℕ)
  | [], printed => pure (some printed)
  | desc :: descs, printed => do
    if desc.numberOfPages = 0 ∨ (¬ showAllTypes ∧ ¬ isMemoryTypeBrowsable desc.type) then
      dumpRangesFrom fw showAllTypes descs printed
    else
      dumpLine fw desc
      let printed := printed + 1
      if printed % 16 = 0 then
        print (wide "\nPress ESC to quit or other keys to continue...") []
        let key ← tuiReadKey
        if key.scanCode = scanEsc then return none
        else
          tuiClearScreen
          dumpHeading
          dumpRangesFrom fw showAllTypes descs printed
      else dumpRangesFrom fw showAllTypes descs printed

/-- `DumpMemoryRanges`. -/
def dumpMemoryRanges (fw : Firmware) (showAllTypes : Bool) : Prog UefiWorld Unit := do
  let w ← Prog.get
  if w.memLib.gMemMap.isNone ∨ w.memLib.gDescSize = 0 then return ()
  else
    tuiClearScreen
    dumpHeading
    match ← dumpRangesFrom fw showAllTypes w.memLib.descriptors 0 with
    | none => return ()
    | some printed =>
      if printed = 0 then print (wide "(none)\n") []
      print (wide "\nPress any key to return...") []
      tuiWaitForKeyPress

/-- `UefiBridgeDumpMemoryRanges`. -/
def uefiBridgeDumpMemoryRanges (fw : Firmware) : Prog UefiWorld Unit := dumpMemoryRanges fw true

/-! ## Text UI and errors -/

/-- `UefiBridgeTuiOutputString`: the string is the format of `Print`. -/
def uefiBridgeTuiOutputString (string : List NxUiChar) : Prog UefiWorld Unit := print string []

/-- `UefiBridgeTuiOutputStringAt`. -/
def uefiBridgeTuiOutputStringAt (column row : NxUintn) (string : List NxUiChar) :
    Prog UefiWorld Unit := do
  tuiSetCursorPosition column row
  print string []

/-- `UefiBridgeTuiReadKey`. -/
def uefiBridgeTuiReadKey : Prog UefiWorld NxUiKey := do
  let efiKey ← tuiReadKey
  return ⟨efiKey.scanCode.setWidth 32, efiKey.unicodeChar⟩

/-- `UefiBridgeTuiReadHex`. -/
def uefiBridgeTuiReadHex (fw : Firmware) (maxDigits : NxUintn) :
    Prog UefiWorld (NxBool × NxU64) :=
  tuiReadHex fw maxDigits

/-- `UefiBridgeTuiGetScreenDimensions`. -/
def uefiBridgeTuiGetScreenDimensions (fw : Firmware) :
    Prog UefiWorld (NxStatus × NxUintn × NxUintn) :=
  pure (if efiError fw.queryMode.1 then .deviceError else .success, fw.queryMode.2)

/-- `UefiBridgeReportError`. -/
def uefiBridgeReportError (message : List NxUiChar) (status : NxStatus) : Prog UefiWorld Unit :=
  print (wide "\n[ERROR] %s (Status: 0x%x)\n")
    [.string message, .number (status.code.setWidth 64)]

end UefiNexus
