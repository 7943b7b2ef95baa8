/-
  UefiNexus model — page navigation in NexusMemLib (`MemMap.c`): the first
  browsable address, and the valid pages around an address.

  The page functions take the arithmetic of 64-bit words as a parameter, so that
  their additions, subtractions and left shifts can be checked for wrap-around;
  `MemLib.getNextValidPageAddress` and `MemLib.getPreviousValidPageAddress` are
  the functions in the machine's arithmetic.
-/
import UefiNexus.Lib.Checked
import UefiNexus.NexusMemLib.MemMap

namespace UefiNexus

open Checked

/-! ## The first address -/

/-- The body of the loop of `GetFirstValidAddress`, on `Min`. -/
def firstAddressStep (min : NxU64) (desc : EfiMemoryDescriptor) : NxU64 :=
  if isMemoryTypeBrowsable desc.type ∧ desc.numberOfPages ≠ 0 ∧
      desc.numberOfPages ≤ maxUint64 >>> 12 ∧
      desc.physicalStart ≤ maxUint64 - (desc.numberOfPages <<< 12) then
    if desc.physicalStart < min then desc.physicalStart else min
  else min

/-- `GetFirstValidAddress`. -/
def MemLib.getFirstValidAddress (lib : MemLib) : NxU64 :=
  if lib.gMemMap.isNone ∨ lib.gDescSize = 0 then 0
  else
    let min := lib.descriptors.foldl firstAddressStep maxUint64
    if min = maxUint64 then 0 else min

/-! ## Pages -/

section
variable {m : Type → Type} [Monad m] (arith : Arith 64 m)

/-- `AlignDown`. -/
def alignDownWith (address : NxU64) (alignment : NxUintn) : m NxU64 := do
  let mask ← arith.sub alignment 1
  return address &&& ~~~mask

/-- What the page functions compute of a descriptor first: its end, `none` where
    the loops skip it. -/
def browsableEnd (desc : EfiMemoryDescriptor) : m (Option NxU64) := do
  if ¬ isMemoryTypeBrowsable desc.type ∨ desc.numberOfPages = 0 ∨
      desc.numberOfPages > maxUint64 >>> 12 then
    return none
  else
    let size ← arith.shiftLeft desc.numberOfPages 12
    let last ← arith.sub maxUint64 size
    if desc.physicalStart > last then return none
    else
      let stop ← arith.add desc.physicalStart size
      return some stop

/-- `IsPageValid`. -/
def isPageValidWith (lib : MemLib) (address : NxU64) (pageSize : NxUintn) : m Bool := do
  if pageSize = 0 then return false
  else
    let pageBase ← alignDownWith arith address pageSize
    let last ← arith.sub maxUint64 pageSize
    if pageBase > last then return false
    else
      let pageEnd ← arith.add pageBase pageSize
      lib.descriptors.anyM fun desc => do
        match ← browsableEnd arith desc with
        | none => return false
        | some descriptorEnd => return pageBase ≥ desc.physicalStart && pageEnd ≤ descriptorEnd

/-- The first page from `Start` on, `none` where it would be past the end of the
    address space. -/
def firstPageFrom (start : NxU64) (pageSize : NxUintn) : m (Option NxU64) := do
  let page ← alignDownWith arith start pageSize
  if page < start then
    let last ← arith.sub maxUint64 pageSize
    if page > last then return none
    else
      let page ← arith.add page pageSize
      return some page
  else return some page

/-- The candidate of a descriptor in `GetNextValidPageAddress`. -/
def nextCandidate (nextPage : NxU64) (pageSize : NxUintn) (desc : EfiMemoryDescriptor) :
    m (Option NxU64) := do
  match ← browsableEnd arith desc with
  | none => return none
  | some stop =>
    match ← firstPageFrom arith desc.physicalStart pageSize with
    | none => return none
    | some candidate =>
      if candidate ≥ nextPage ∧ candidate ≤ stop then
        let room ← arith.sub stop candidate
        if pageSize ≤ room then return some candidate else return none
      else return none

/-- The body of the loop of `GetNextValidPageAddress`, on `BestPage`. -/
def nextStep (nextPage : NxU64) (pageSize : NxUintn) (bestPage : NxU64)
    (desc : EfiMemoryDescriptor) : m NxU64 := do
  match ← nextCandidate arith nextPage pageSize desc with
  | none => return bestPage
  | some candidate => if candidate < bestPage then return candidate else return bestPage

/-- `GetNextValidPageAddress`. -/
def getNextValidPageAddress (lib : MemLib) (address : NxU64) (pageSize : NxUintn) : m NxU64 := do
  if pageSize = 0 ∨ lib.gMemMap.isNone ∨ lib.gDescSize = 0 then return address
  else
    let currentPage ← alignDownWith arith address pageSize
    let last ← arith.sub maxUint64 pageSize
    if currentPage > last then return currentPage
    else
      let nextPage ← arith.add currentPage pageSize
      if ← isPageValidWith arith lib nextPage pageSize then return nextPage
      else
        let bestPage ← lib.descriptors.foldlM (nextStep arith nextPage pageSize) maxUint64
        if bestPage = maxUint64 then return currentPage else return bestPage

/-- The candidate of a descriptor in `GetPreviousValidPageAddress`. -/
def previousCandidate (prevPage : NxU64) (pageSize : NxUintn) (desc : EfiMemoryDescriptor) :
    m (Option NxU64) := do
  match ← browsableEnd arith desc with
  | none => return none
  | some stop =>
    let size ← arith.sub stop desc.physicalStart
    if size < pageSize then return none
    else
      match ← firstPageFrom arith desc.physicalStart pageSize with
      | none => return none
      | some firstPage =>
        let top ← arith.sub stop pageSize
        let lastPage ← alignDownWith arith top pageSize
        if firstPage > lastPage then return none
        else if firstPage > prevPage then return none
        else
          let candidate := if prevPage < lastPage then prevPage else lastPage
          if candidate ≥ firstPage then return some candidate else return none

/-- The body of the loop of `GetPreviousValidPageAddress`, on `BestPage` and
    `Found`. -/
def previousStep (prevPage : NxU64) (pageSize : NxUintn) (s : NxU64 × Bool)
    (desc : EfiMemoryDescriptor) : m (NxU64 × Bool) := do
  match ← previousCandidate arith prevPage pageSize desc with
  | none => return s
  | some candidate => if ¬ s.2 ∨ candidate > s.1 then return (candidate, true) else return s

/-- `GetPreviousValidPageAddress`. -/
def getPreviousValidPageAddress (lib : MemLib) (address : NxU64) (pageSize : NxUintn) :
    m NxU64 := do
  if pageSize = 0 ∨ lib.gMemMap.isNone ∨ lib.gDescSize = 0 then return address
  else
    let currentPage ← alignDownWith arith address pageSize
    if currentPage < pageSize then return currentPage
    else
      let prevPage ← arith.sub currentPage pageSize
      if ← isPageValidWith arith lib prevPage pageSize then return prevPage
      else
        let (bestPage, found) ←
          lib.descriptors.foldlM (previousStep arith prevPage pageSize) (0, false)
        if found then return bestPage else return currentPage

end

/-- `GetNextValidPageAddress`, on the machine. -/
def MemLib.getNextValidPageAddress (lib : MemLib) (address : NxU64) (pageSize : NxUintn) :
    NxU64 :=
  (UefiNexus.getNextValidPageAddress wrapping lib address pageSize).run

/-- `GetPreviousValidPageAddress`, on the machine. -/
def MemLib.getPreviousValidPageAddress (lib : MemLib) (address : NxU64) (pageSize : NxUintn) :
    NxU64 :=
  (UefiNexus.getPreviousValidPageAddress wrapping lib address pageSize).run

end UefiNexus
