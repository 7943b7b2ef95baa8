/-
  UefiNexus model — `InitMemoryMap` and the pool (`MemMap.c`).

  In `MemMap.lean` the cached map is a value.  Here `gMemMap` is what it is in the
  source, a pointer to a pool buffer, `0` for `NULL`; the buffers keep their contents,
  and the calls of `AllocatePool` and `FreePool` and the buffers passed to
  `GetMemoryMap` are recorded.

  A pool may answer whatever it wants, depending on all that has happened; when it
  succeeds it stores the address of a block that is not out (`PoolDocumented`).  What
  is stored when it fails, UEFI leaves open (`FailsWithNull`).
-/
import UefiNexus.Lib.Pool
import UefiNexus.NexusMemLib.MemMap

namespace UefiNexus

/-- `AllocatePool` after some events, of a size: its status, the pointer it stores, and
    the contents of the block. -/
abbrev AllocatePool := List (Pool.Event NxU64) → NxUintn → EfiStatus × NxU64 × Buffer

/-- When it succeeds, the pool stores the address of a block that is not out. -/
structure PoolDocumented (allocatePool : AllocatePool) : Prop where
  fresh : ∀ events size, efiError (allocatePool events size).1 = false →
    (allocatePool events size).2.1 ≠ 0 ∧
      ∀ b ∈ Pool.live events, b.1 ≠ (allocatePool events size).2.1

/-- When it fails after these events, the pool stores `NULL`. -/
def FailsWithNull (allocatePool : AllocatePool) (events : List (Pool.Event NxU64)) : Prop :=
  ∀ size, efiError (allocatePool events size).1 = true → (allocatePool events size).2.1 = 0

/-- The static variables of `MemMap.c`, the buffers of the pool, and what has happened
    to them. -/
structure PoolLib where
  gMemMap : NxU64
  gMemMapSize : NxUintn
  gDescSize : NxUintn
  gMemoryAttributeProtocol : Option MemoryAttributeProtocol
  gMemoryAttributeProtocolLocated : Bool
  buffers : NxU64 → Buffer
  events : List (Pool.Event NxU64)

namespace PoolLib

/-- At boot. -/
def initial : PoolLib := ⟨0, 0, 0, none, false, fun _ _ => 0, []⟩

/-- The variables, with the map as a value. -/
def memLib (s : PoolLib) : MemLib where
  gMemMap := if s.gMemMap = 0 then none else some (s.buffers s.gMemMap)
  gMemMapSize := s.gMemMapSize
  gDescSize := s.gDescSize
  gMemoryAttributeProtocol := s.gMemoryAttributeProtocol
  gMemoryAttributeProtocolLocated := s.gMemoryAttributeProtocolLocated

/-- `FreePool (gMemMap)`, if there is a map. -/
def freeMap (s : PoolLib) : PoolLib :=
  if s.gMemMap = 0 then s
  else { s with gMemMap := 0, events := s.events ++ [.free s.gMemMap] }

/-- `GetMemoryMap (&gMemMapSize, gMemMap, …)`. -/
def getMap (service : GetMemoryMap) (s : PoolLib) : EfiStatus × PoolLib :=
  let reply := service s.gMemMapSize s.memLib.gMemMap
  let sized := { s with gMemMapSize := reply.memoryMapSize, gDescSize := reply.descriptorSize }
  if s.gMemMap = 0 then (reply.status, sized)
  else
    (reply.status,
      { sized with
        buffers := fun p => if p = s.gMemMap then reply.memoryMap else s.buffers p
        events := s.events ++ [.use s.gMemMap s.gMemMapSize.toNat] })

/-- `AllocatePool (EfiBootServicesData, gMemMapSize, &gMemMap)`. -/
def allocMap (allocatePool : AllocatePool) (s : PoolLib) : EfiStatus × PoolLib :=
  let (status, pointer, contents) := allocatePool s.events s.gMemMapSize
  let s' :=
    { s with
      gMemMap := pointer
      buffers := fun p => if p = pointer then contents else s.buffers p }
  if efiError status then (status, s')
  else (status, { s' with events := s.events ++ [.alloc pointer s.gMemMapSize.toNat] })

/-- `LocateMemoryAttributeProtocol`. -/
def locate (bs : BootServices) (s : PoolLib) : PoolLib :=
  { s with
    gMemoryAttributeProtocol :=
      (locateMemoryAttributeProtocol bs s.memLib).gMemoryAttributeProtocol
    gMemoryAttributeProtocolLocated :=
      (locateMemoryAttributeProtocol bs s.memLib).gMemoryAttributeProtocolLocated }

/-- `InitMemoryMap`. -/
def initMemoryMap (bs : BootServices) (allocatePool : AllocatePool)
    (sizing filling : GetMemoryMap) (s : PoolLib) : EfiStatus × PoolLib :=
  let (status, s) := getMap sizing s.freeMap
  if status ≠ efiBufferTooSmall then (status, s)
  else
    let (status, s) := allocMap allocatePool { s with gMemMapSize := s.gMemMapSize + s.gDescSize * 2 }
    if efiError status then (status, s)
    else
      let (status, s) := getMap filling s
      if efiError status then (status, s) else (status, locate bs s)

/-- `QueryMemoryAccess`: of the variables it changes those of the protocol only. -/
def queryMemoryAccess (bs : BootServices) (baseAddress length : NxU64) (s : PoolLib) : PoolLib :=
  let lib := (UefiNexus.queryMemoryAccess bs s.memLib baseAddress length).2.2
  { s with
    gMemoryAttributeProtocol := lib.gMemoryAttributeProtocol
    gMemoryAttributeProtocolLocated := lib.gMemoryAttributeProtocolLocated }

end PoolLib

/-- The calls of NexusMemLib that change its variables, with the services during them. -/
inductive LibCall where
  | initMemoryMap (sizing filling : GetMemoryMap)
  | queryMemoryAccess (baseAddress length : NxU64)

/-- A call. -/
def PoolLib.serve (bs : BootServices) (allocatePool : AllocatePool) (s : PoolLib) :
    LibCall → PoolLib
  | .initMemoryMap sizing filling => (s.initMemoryMap bs allocatePool sizing filling).2
  | .queryMemoryAccess baseAddress length => s.queryMemoryAccess bs baseAddress length

/-- The calls from boot on. -/
def poolRun (bs : BootServices) (allocatePool : AllocatePool) (calls : List LibCall) : PoolLib :=
  calls.foldl (PoolLib.serve bs allocatePool) .initial

end UefiNexus
