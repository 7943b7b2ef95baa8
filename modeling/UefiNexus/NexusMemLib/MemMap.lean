/-
  UefiNexus model — the memory map of NexusMemLib (`MemMap.c`): the cached EFI
  memory map, its initialization, and the access policy of a range.

  The static variables are the record `MemLib`.  The cached map is a buffer of
  bytes; its descriptors are read from it at multiples of `gDescSize`, and the
  loops over `Index < Count` are searches of their list.  Of the boot services,
  `BootServices` is what `LocateProtocol` answers (it is called once) and
  `MapServices` how `GetMemoryMap` and `AllocatePool` behave during one
  `InitMemoryMap`.
-/
import UefiNexus.Base
import UefiNexus.Lib.ByteMem

namespace UefiNexus

/-! ## EFI memory types -/

def efiLoaderCode : NxU32 := 1
def efiLoaderData : NxU32 := 2
def efiBootServicesCode : NxU32 := 3
def efiBootServicesData : NxU32 := 4
def efiRuntimeServicesCode : NxU32 := 5
def efiRuntimeServicesData : NxU32 := 6
def efiConventionalMemory : NxU32 := 7
def efiAcpiReclaimMemory : NxU32 := 9
def efiAcpiMemoryNvs : NxU32 := 10
def efiMemoryMappedIo : NxU32 := 11
def efiMemoryMappedIoPortSpace : NxU32 := 12

/-- The types a range may have to be written. -/
def writableTypes : List NxU32 :=
  [efiLoaderCode, efiLoaderData, efiBootServicesCode, efiBootServicesData,
    efiRuntimeServicesCode, efiRuntimeServicesData, efiConventionalMemory]

/-- The types a range may have to be read. -/
def readableTypes : List NxU32 := writableTypes ++ [efiAcpiReclaimMemory, efiAcpiMemoryNvs]

/-- `IsMemoryTypeBrowsable`. -/
def isMemoryTypeBrowsable (type : NxU32) : Bool :=
  type ∈ readableTypes ++ [efiMemoryMappedIo, efiMemoryMappedIoPortSpace]

/-! ## The cached map -/

/-- The bytes of a pool buffer, from its start. -/
abbrev Buffer := ℕ → NxU8

/-- `EFI_MEMORY_ATTRIBUTE_PROTOCOL`: `GetMemoryAttributes` of a base address and
    a length. -/
abbrev MemoryAttributeProtocol := NxU64 → NxU64 → EfiStatus × NxU64

/-- The static variables of `MemMap.c`. -/
structure MemLib where
  gMemMap : Option Buffer
  gMemMapSize : NxUintn
  gDescSize : NxUintn
  gMemoryAttributeProtocol : Option MemoryAttributeProtocol
  gMemoryAttributeProtocolLocated : Bool

/-- The static variables at boot. -/
def MemLib.initial : MemLib := ⟨none, 0, 0, none, false⟩

/-- The `EFI_MEMORY_DESCRIPTOR` at the byte `start` of a buffer. -/
def descriptorAt (buffer : Buffer) (start : ℕ) : EfiMemoryDescriptor where
  type := BitVec.ofNat 32 (ByteMem.leValue (fun i => buffer (start + i)) 4)
  physicalStart := BitVec.ofNat 64 (ByteMem.leValue (fun i => buffer (start + 8 + i)) 8)
  numberOfPages := BitVec.ofNat 64 (ByteMem.leValue (fun i => buffer (start + 24 + i)) 8)
  attr := BitVec.ofNat 64 (ByteMem.leValue (fun i => buffer (start + 32 + i)) 8)

namespace MemLib

/-- The descriptors `Index = 0, …, Count - 1` of the cached map. -/
def descriptors (lib : MemLib) : List EfiMemoryDescriptor :=
  match lib.gMemMap with
  | none => []
  | some buffer =>
    if lib.gDescSize = 0 then []
    else
      let count := (lib.gMemMapSize / lib.gDescSize).toNat
      (List.range count).map fun index => descriptorAt buffer (index * lib.gDescSize.toNat)

end MemLib

/-! ## Ranges -/

/-- `DescriptorEnd` of a descriptor, `none` where the loops skip it: it is empty,
    or its end is not a 64-bit address. -/
def EfiMemoryDescriptor.descriptorEnd (desc : EfiMemoryDescriptor) : Option NxU64 :=
  if desc.numberOfPages = 0 ∨ desc.numberOfPages > maxUint64 >>> 12 then none
  else
    let descriptorSize := desc.numberOfPages <<< 12
    if desc.physicalStart > maxUint64 - descriptorSize then none
    else some (desc.physicalStart + descriptorSize)

/-- The test of a descriptor in the loops that look for a range. -/
def EfiMemoryDescriptor.containsRange (address rangeEnd : NxU64) (desc : EfiMemoryDescriptor) :
    Bool :=
  match desc.descriptorEnd with
  | none => false
  | some descriptorEnd => address ≥ desc.physicalStart && rangeEnd ≤ descriptorEnd

/-- `FindDescriptorForRange`. -/
def findDescriptorForRange (lib : MemLib) (address length : NxU64) : Option EfiMemoryDescriptor :=
  if length = 0 ∨ address > maxUint64 - length then none
  else lib.descriptors.find? (EfiMemoryDescriptor.containsRange address (address + length))

/-- `IsToolRangeReadable`. -/
def isToolRangeReadable (lib : MemLib) (address length : NxU64) : Bool :=
  match findDescriptorForRange lib address length with
  | none => false
  | some desc => desc.type ∈ readableTypes

/-- `IsToolRangeWritable`. -/
def isToolRangeWritable (lib : MemLib) (address length : NxU64) : Bool :=
  match findDescriptorForRange lib address length with
  | none => false
  | some desc => desc.type ∈ writableTypes

/-- `AlignDown`. -/
def alignDown (address : NxU64) (alignment : NxUintn) : NxU64 := address &&& ~~~(alignment - 1)

/-- `IsPageValid`. -/
def MemLib.isPageValid (lib : MemLib) (address : NxU64) (pageSize : NxUintn) : Bool :=
  if pageSize = 0 then false
  else
    let pageBase := alignDown address pageSize
    if pageBase > maxUint64 - pageSize then false
    else
      let pageEnd := pageBase + pageSize
      lib.descriptors.any fun desc =>
        isMemoryTypeBrowsable desc.type && desc.containsRange pageBase pageEnd

/-! ## Initialization -/

/-- The answer of `LocateProtocol` for `gEfiMemoryAttributeProtocolGuid`. -/
structure BootServices where
  locateStatus : EfiStatus
  locateInterface : Option MemoryAttributeProtocol

/-- `LocateMemoryAttributeProtocol`. -/
def locateMemoryAttributeProtocol (bs : BootServices) (lib : MemLib) : MemLib :=
  if lib.gMemoryAttributeProtocolLocated then lib
  else
    { lib with
      gMemoryAttributeProtocolLocated := true
      gMemoryAttributeProtocol := if efiError bs.locateStatus then none else bs.locateInterface }

/-- What a call of `GetMemoryMap` returns and stores; `memoryMap` is the buffer
    after the call, where there is one. -/
structure GetMemoryMapReply where
  status : EfiStatus
  memoryMapSize : NxUintn
  memoryMap : Buffer
  descriptorSize : NxUintn

/-- `GetMemoryMap`, of the size and the buffer it is passed. -/
abbrev GetMemoryMap := NxUintn → Option Buffer → GetMemoryMapReply

/-- The boot services during one `InitMemoryMap`: the firmware's map may change
    between the two calls of `GetMemoryMap`.  `allocatePool` is the status and the
    pointer stored, `none` for `NULL`. -/
structure MapServices where
  sizing : GetMemoryMap
  allocatePool : NxUintn → EfiStatus × Option Buffer
  filling : GetMemoryMap

/-- `InitMemoryMap`. -/
def initMemoryMap (bs : BootServices) (services : MapServices) (lib : MemLib) :
    EfiStatus × MemLib :=
  -- a cached map is freed first
  let lib := { lib with gMemMap := none }
  let reply := services.sizing lib.gMemMapSize lib.gMemMap
  let lib :=
    { lib with gMemMapSize := reply.memoryMapSize, gDescSize := reply.descriptorSize }
  if reply.status ≠ efiBufferTooSmall then (reply.status, lib)
  else
    let lib := { lib with gMemMapSize := lib.gMemMapSize + lib.gDescSize * 2 }
    let (status, memMap) := services.allocatePool lib.gMemMapSize
    let lib := { lib with gMemMap := memMap }
    if efiError status then (status, lib)
    else
      let reply := services.filling lib.gMemMapSize lib.gMemMap
      let lib :=
        { lib with
          gMemMap := lib.gMemMap.map fun _ => reply.memoryMap
          gMemMapSize := reply.memoryMapSize
          gDescSize := reply.descriptorSize }
      if efiError reply.status then (reply.status, lib)
      else (reply.status, locateMemoryAttributeProtocol bs lib)

/-! ## Access -/

/-- `QueryMemoryAccess`, with the `AccessInfo` it stores. -/
def queryMemoryAccess (bs : BootServices) (lib : MemLib) (baseAddress length : NxU64) :
    EfiStatus × EfiMemoryAccessInfo × MemLib :=
  let accessInfo : EfiMemoryAccessInfo := ⟨efiInvalidParameter, 0, false, false, false, false⟩
  if length = 0 ∨ baseAddress > maxUint64 - length then
    (efiInvalidParameter, accessInfo, lib)
  else
    match findDescriptorForRange lib baseAddress length with
    | none => (efiSuccess, { accessInfo with queryStatus := efiNoMapping }, lib)
    | some _ =>
      let lib :=
        if lib.gMemoryAttributeProtocolLocated then lib
        else locateMemoryAttributeProtocol bs lib
      match lib.gMemoryAttributeProtocol with
      | none => (efiSuccess, { accessInfo with queryStatus := efiNotFound }, lib)
      | some getMemoryAttributes =>
        let (status, attributes) := getMemoryAttributes baseAddress length
        if ¬ efiError status then
          let toolReadAllowed := isToolRangeReadable lib baseAddress length
          let toolWriteAllowed := isToolRangeWritable lib baseAddress length
          (efiSuccess,
            { queryStatus := status
              attributes := attributes
              readAllowed := toolReadAllowed && attributes &&& efiMemoryRp = 0
              writeAllowed := toolWriteAllowed && attributes &&& efiMemoryRo = 0
              executeAllowed := attributes &&& efiMemoryXp = 0
              accessKnown := true },
            lib)
        else (efiSuccess, { accessInfo with queryStatus := status }, lib)

/-- `IsRangeValid`. -/
def isRangeValid (bs : BootServices) (lib : MemLib) (address : NxU64) (size : NxUintn) :
    Bool × MemLib :=
  let (status, accessInfo, lib) := queryMemoryAccess bs lib address size
  (¬ efiError status && accessInfo.accessKnown && accessInfo.readAllowed, lib)

/-- `IsRangeWritable`. -/
def isRangeWritable (bs : BootServices) (lib : MemLib) (address : NxU64) (size : NxUintn) :
    Bool × MemLib :=
  let (status, accessInfo, lib) := queryMemoryAccess bs lib address size
  (¬ efiError status && accessInfo.accessKnown && accessInfo.writeAllowed, lib)

end UefiNexus
