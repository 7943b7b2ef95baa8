/-
  UefiNexus model — physical memory access (`MemAccess.c`).

  The volatile loads and stores of 1, 2, 4 and 8 bytes are the little-endian
  `load` and `store`.  The out parameter `Value` of a read is `none` for a NULL
  pointer, and otherwise the cell it points to.
-/
import UefiNexus.NexusMemLib.MemMap

namespace UefiNexus

/-- `IsSupportedWidth`. -/
def isSupportedWidth (width : NxUintn) : Bool := width = 1 || width = 2 || width = 4 || width = 8

/-- `IsAligned`. -/
def isAligned (address : NxU64) (width : NxUintn) : Bool := address &&& (width - 1) = 0

/-- `MemRead`: its status, `*Value` and the library after it. -/
def memRead (bs : BootServices) (lib : MemLib) (memory : PhysMem) (address : NxU64)
    (width : NxUintn) (value : Option NxU64) : EfiStatus × Option NxU64 × MemLib :=
  match value with
  | none => (efiInvalidParameter, none, lib)
  | some _ =>
    if ¬ isSupportedWidth width then (efiInvalidParameter, some 0, lib)
    else
      let (valid, lib) := isRangeValid bs lib address width
      if ¬ valid then (efiAccessDenied, some 0, lib)
      else if ¬ isAligned address width then (efiInvalidParameter, some 0, lib)
      else if width = 1 then (efiSuccess, some (BitVec.ofNat 64 (ByteMem.load memory address 1)), lib)
      else if width = 2 then (efiSuccess, some (BitVec.ofNat 64 (ByteMem.load memory address 2)), lib)
      else if width = 4 then (efiSuccess, some (BitVec.ofNat 64 (ByteMem.load memory address 4)), lib)
      else (efiSuccess, some (BitVec.ofNat 64 (ByteMem.load memory address 8)), lib)

/-- `MemWrite`: its status, and the memory and the library after it. -/
def memWrite (bs : BootServices) (lib : MemLib) (memory : PhysMem) (address : NxU64)
    (width : NxUintn) (value : NxU64) : EfiStatus × PhysMem × MemLib :=
  if ¬ isSupportedWidth width then (efiInvalidParameter, memory, lib)
  else
    let (writable, lib) := isRangeWritable bs lib address width
    if ¬ writable then (efiAccessDenied, memory, lib)
    else if ¬ isAligned address width then (efiInvalidParameter, memory, lib)
    else if width = 1 then (efiSuccess, ByteMem.store memory address 1 value.toNat, lib)
    else if width = 2 then (efiSuccess, ByteMem.store memory address 2 value.toNat, lib)
    else if width = 4 then (efiSuccess, ByteMem.store memory address 4 value.toNat, lib)
    else (efiSuccess, ByteMem.store memory address 8 value.toNat, lib)

end UefiNexus
