/-
  UefiNexus model — the address map of PageMem (`Core/AddressMap.c`): range and
  page validity, and page navigation.

  The loops over the descriptor array are searches of its list.  What the four
  loops compute of one descriptor before they test it is `descriptorEnd`; the
  two navigation loops recompute it without the overflow guard.
-/
import UefiNexus.Base

namespace UefiNexus

/-- `PageCoreInitAddressMap`. -/
def pageCoreInitAddressMap (map : PageMemAddressMap)
    (descriptors : Option (List NxMemoryDescriptor)) : NxStatus × PageMemAddressMap :=
  match descriptors with
  | none | some [] => (.invalidParameter, map)
  | some (d :: ds) => (.success, ⟨some (d :: ds)⟩)

/-- `IsDescriptorValid`. -/
def isDescriptorValid (desc : NxMemoryDescriptor) : NxBool :=
  match desc.type with
  | .loaderCode | .loaderData | .conventional | .bootServicesCode | .bootServicesData
  | .runtimeServicesCode | .runtimeServicesData | .acpiReclaim | .acpiNvs | .mmio => true
  | .reserved | .other => false

/-- `DescEnd` of a descriptor, `none` where the loop skips the descriptor since
    its end would overflow.  The page count is shifted before it is checked. -/
def descriptorEnd (desc : NxMemoryDescriptor) : Option NxU64 :=
  if desc.numberOfPages > 0 then
    let descriptorSize := desc.numberOfPages <<< 12
    if descriptorSize > 0 ∧ desc.physicalStart > maxUint64 - descriptorSize then none
    else some (desc.physicalStart + descriptorSize)
  else some desc.physicalStart

/-- `PageCoreIsAddressValid`. -/
def pageCoreIsAddressValid (map : PageMemAddressMap) (address : NxU64) : NxBool :=
  match map.descriptors with
  | none => false
  | some ds => ds.any fun desc =>
    isDescriptorValid desc &&
      match descriptorEnd desc with
      | none => false
      | some descEnd => address ≥ desc.physicalStart && address < descEnd

/-- `PageCoreIsRangeValid`. -/
def pageCoreIsRangeValid (map : PageMemAddressMap) (address : NxU64) (size : NxUintn) : NxBool :=
  match map.descriptors with
  | none => false
  | some ds =>
    if size = 0 then false
    else if address > maxUint64 - size then false
    else
      let rangeEnd := address + size
      ds.any fun desc =>
        isDescriptorValid desc &&
          match descriptorEnd desc with
          | none => false
          | some descEnd => address ≥ desc.physicalStart && rangeEnd ≤ descEnd

/-- `PageCoreGetFirstValidAddress`. -/
def pageCoreGetFirstValidAddress (map : PageMemAddressMap) : NxU64 :=
  match map.descriptors with
  | none => 0
  | some ds =>
    match ds.find? isDescriptorValid with
    | some desc => desc.physicalStart
    | none => 0

/-- `AlignUp`. -/
def alignUp (address : NxU64) (alignment : NxUintn) : NxU64 :=
  if alignment = 0 then address
  else (address + (alignment - 1)) &&& ~~~(alignment - 1)

/-- `IsPageValid`: the page end is computed without an overflow check. -/
def isPageValid (map : PageMemAddressMap) (address : NxU64) (pageSize : NxUintn) : NxBool :=
  match map.descriptors with
  | none => false
  | some ds =>
    if pageSize = 0 then false
    else
      let pageBase := address &&& ~~~(pageSize - 1)
      let pageEnd := pageBase + pageSize
      ds.any fun desc =>
        isDescriptorValid desc && desc.numberOfPages ≠ 0 &&
          match descriptorEnd desc with
          | none => false
          | some descEnd => pageBase ≥ desc.physicalStart && pageEnd ≤ descEnd

/-- The candidate page of one descriptor in the search of
    `PageCoreGetNextValidPageAddress`; `none` where the loop continues. -/
def nextPageCandidate (nextPage : NxU64) (pageSize : NxUintn) (desc : NxMemoryDescriptor) :
    Option NxU64 :=
  if ¬ isDescriptorValid desc ∨ desc.numberOfPages = 0 then none
  else
    let descStart := desc.physicalStart
    let descEnd := desc.physicalStart + (desc.numberOfPages <<< 12)
    let firstPage := alignUp descStart pageSize
    if descEnd < pageSize ∨ firstPage + pageSize > descEnd then none
    else if nextPage ≤ firstPage then some firstPage
    else if nextPage < descEnd then
      let candidate := alignUp nextPage pageSize
      if candidate + pageSize > descEnd then none else some candidate
    else none

/-- One step of that search: `BestPage` doubles as "none yet" when it is the
    current page. -/
def nextPageStep (currentPage nextPage : NxU64) (pageSize : NxUintn) (bestPage : NxU64)
    (desc : NxMemoryDescriptor) : NxU64 :=
  match nextPageCandidate nextPage pageSize desc with
  | none => bestPage
  | some candidate =>
    if candidate > currentPage ∧ (bestPage = currentPage ∨ candidate < bestPage) then candidate
    else bestPage

/-- `PageCoreGetNextValidPageAddress`. -/
def pageCoreGetNextValidPageAddress (map : PageMemAddressMap) (address : NxU64)
    (pageSize : NxUintn) : NxU64 :=
  match map.descriptors with
  | none => address
  | some ds =>
    if pageSize = 0 then address
    else
      let currentPage := address &&& ~~~(pageSize - 1)
      if currentPage > maxUint64 - pageSize then currentPage
      else
        let nextPage := currentPage + pageSize
        if isPageValid map nextPage pageSize then nextPage
        else ds.foldl (nextPageStep currentPage nextPage pageSize) currentPage

/-- The candidate page of one descriptor in the search of
    `PageCoreGetPreviousValidPageAddress`. -/
def previousPageCandidate (currentPage : NxU64) (pageSize : NxUintn) (desc : NxMemoryDescriptor) :
    Option NxU64 :=
  if ¬ isDescriptorValid desc ∨ desc.numberOfPages = 0 then none
  else
    let descStart := desc.physicalStart
    let descEnd := desc.physicalStart + (desc.numberOfPages <<< 12)
    let firstPage := alignUp descStart pageSize
    if descEnd < pageSize ∨ firstPage + pageSize > descEnd then none
    else
      let lastPage := (descEnd - pageSize) &&& ~~~(pageSize - 1)
      if lastPage < firstPage then none
      else if currentPage ≤ firstPage then none
      else if currentPage > lastPage then some lastPage
      else
        let candidate := currentPage - pageSize
        if candidate < firstPage then none else some candidate

/-- One step of that search: `BestPage` is `0` while there is no candidate. -/
def previousPageStep (currentPage : NxU64) (pageSize : NxUintn) (bestPage : NxU64)
    (desc : NxMemoryDescriptor) : NxU64 :=
  match previousPageCandidate currentPage pageSize desc with
  | none => bestPage
  | some candidate =>
    if candidate < currentPage ∧ candidate > bestPage then candidate else bestPage

/-- `PageCoreGetPreviousValidPageAddress`. -/
def pageCoreGetPreviousValidPageAddress (map : PageMemAddressMap) (address : NxU64)
    (pageSize : NxUintn) : NxU64 :=
  match map.descriptors with
  | none => address
  | some ds =>
    if pageSize = 0 ∨ address = 0 then address
    else
      let currentPage := address &&& ~~~(pageSize - 1)
      if currentPage < pageSize then currentPage
      else
        let prevPage := currentPage - pageSize
        if isPageValid map prevPage pageSize then prevPage
        else
          let bestPage := ds.foldl (previousPageStep currentPage pageSize) 0
          if bestPage ≠ 0 then bestPage else currentPage

end UefiNexus
