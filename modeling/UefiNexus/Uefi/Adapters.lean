/-
  UefiNexus model — the UEFI adapters (`MemAdapter.c`, `TuiAdapter.c`,
  `ErrorAdapter.c`, `AdapterManager.c`).
-/
import UefiNexus.Uefi.Bridge
import UefiNexus.Adapter.Interface

namespace UefiNexus

/-! ## Memory adapter -/

/-- `MapMemoryType`. -/
def mapMemoryType (type : NxU32) : NxMemoryType :=
  if type = 1 then .loaderCode
  else if type = 2 then .loaderData
  else if type = 3 then .bootServicesCode
  else if type = 4 then .bootServicesData
  else if type = 5 then .runtimeServicesCode
  else if type = 6 then .runtimeServicesData
  else if type = 7 then .conventional
  else if type = 9 then .acpiReclaim
  else if type = 10 then .acpiNvs
  else if type = 11 ∨ type = 12 then .mmio
  else .other

/-- The entry of `gCoreDescriptors` for a bridge descriptor. -/
def toCoreDescriptor (source : NxBridgeMemoryDescriptor) : NxMemoryDescriptor :=
  ⟨mapMemoryType source.type, source.physicalStart, source.numberOfPages, source.attr,
    source.type⟩

/-- `MemAdapterInit`.  `UefiBridgeGetMemoryMapDescriptors` returns `NULL` when
    the size of the bridge's map is zero. -/
def memAdapterInit (fw : Firmware) : Prog UefiWorld NxStatus := do
  let status ← uefiBridgeInitMemoryMap fw
  if nxUiError status then return status
  else
    let w ← Prog.get
    if w.gBridgeMemoryMapSize = 0 ∨ w.gBridgeDescriptorSize = 0 then
      Prog.modify fun w => { w with gCoreDescriptorCount := 0 }
      return .notFound
    else
      let count := w.gBridgeMemoryMapSize / w.gBridgeDescriptorSize
      let count :=
        if count > BitVec.ofNat 64 maxDescriptors then BitVec.ofNat 64 maxDescriptors else count
      let converted := (w.gBridgeDescriptors.take count.toNat).map toCoreDescriptor
      Prog.modify fun w =>
        { w with
          gCoreDescriptors := converted ++ w.gCoreDescriptors.drop converted.length
          gCoreDescriptorCount := count }
      return .success

/-- `MemAdapterGetMemoryMapDescriptors`: the array is never `NULL`. -/
def memAdapterGetMemoryMapDescriptors : Prog UefiWorld (Option (List NxMemoryDescriptor)) := do
  let w ← Prog.get
  return some (w.gCoreDescriptors.take w.gCoreDescriptorCount.toNat)

/-- The test of a descriptor in `MemAdapterGetMemoryTypeAtAddress`. -/
def NxMemoryDescriptor.containsAddress (address : NxU64) (desc : NxMemoryDescriptor) : Bool :=
  if desc.numberOfPages = 0 ∨ desc.numberOfPages > maxUint64 >>> 12 then false
  else
    let size := desc.numberOfPages <<< 12
    if desc.physicalStart > maxUint64 - size then false
    else address ≥ desc.physicalStart && address < desc.physicalStart + size

/-- `MemAdapterGetMemoryTypeAtAddress`, with the `*Type` and the `*Found` it
    stores. -/
def memAdapterGetMemoryTypeAtAddress (address : NxU64) :
    Prog UefiWorld (NxStatus × NxU32 × NxBool) := do
  let w ← Prog.get
  match (w.gCoreDescriptors.take w.gCoreDescriptorCount.toNat).find?
      (NxMemoryDescriptor.containsAddress address) with
  | none => return (.success, 0, false)
  | some desc => return (.success, desc.uefiType, true)

/-- `mMemoryAdapter`. -/
def memoryAdapter (fw : Firmware) : MemoryAdapterInterface UefiWorld where
  init := memAdapterInit fw
  memRead := uefiBridgeMemRead fw
  memWrite := uefiBridgeMemWrite fw
  getMemoryMapDescriptors := memAdapterGetMemoryMapDescriptors
  getMemoryTypeAtAddress := some fun address _ => memAdapterGetMemoryTypeAtAddress address
  queryAccess := some fun baseAddress length _ => uefiBridgeQueryMemoryAccess fw baseAddress length
  dumpValidRanges := uefiBridgeDumpMemoryRanges fw

/-! ## Text UI and error adapters -/

/-- `mTuiAdapter`. -/
def tuiAdapter (fw : Firmware) : TuiAdapterInterface UefiWorld where
  clearScreen := tuiClearScreen
  setAttribute := tuiSetAttribute
  setCursorPosition := tuiSetCursorPosition
  outputString := uefiBridgeTuiOutputString
  outputStringAt := uefiBridgeTuiOutputStringAt
  readKey := uefiBridgeTuiReadKey
  readHex := uefiBridgeTuiReadHex fw
  getScreenDimensions := uefiBridgeTuiGetScreenDimensions fw

/-- `mErrorAdapter`. -/
def errorAdapter : ErrorAdapterInterface UefiWorld where
  reportError := uefiBridgeReportError

/-- The adapters `AdapterManagerInit` collects. -/
def uefiAdapters (fw : Firmware) : AdapterManager UefiWorld where
  memory := memoryAdapter fw
  tui := tuiAdapter fw
  error := errorAdapter

end UefiNexus
