/-
  `GetMemoryMap` as UEFI documents it.

  * `FirmwareMap` is the firmware's memory map at one moment: its bytes, their
    number and the distance of the descriptors;
  * `m.Documents service`: the service answers as documented while the map is
    `m` — too small a size gets `EFI_BUFFER_TOO_SMALL` and the needed size, a
    sufficient size without a buffer `EFI_INVALID_PARAMETER`, and a sufficient
    size with a buffer the map;
  * `m.getMemoryMap`, `standardServices` and `Firmware.ofMap` are such services.
-/
import UefiNexus.NexusMemLib.Layout
import UefiNexus.Uefi.World

namespace UefiNexus

/-- The firmware's memory map at one moment.  The map and two more descriptors
    fit in the address space. -/
structure FirmwareMap where
  bytes : Buffer
  size : ℕ
  descriptorSize : NxUintn
  fits : size + 2 * descriptorSize.toNat < 2 ^ 64

namespace FirmwareMap

/-- The service answers as documented. -/
structure Documents (m : FirmwareMap) (service : GetMemoryMap) : Prop where
  tooSmall : ∀ n buffer, n.toNat < m.size →
    (service n buffer).status = efiBufferTooSmall ∧
    (service n buffer).memoryMapSize.toNat = m.size ∧
    (service n buffer).descriptorSize = m.descriptorSize
  noBuffer : ∀ n, m.size ≤ n.toNat → (service n none).status = efiInvalidParameter
  fills : ∀ n buffer, m.size ≤ n.toNat →
    (service n (some buffer)).status = efiSuccess ∧
    (service n (some buffer)).memoryMapSize.toNat = m.size ∧
    (service n (some buffer)).descriptorSize = m.descriptorSize ∧
    ∀ i < m.size, (service n (some buffer)).memoryMap i = m.bytes i

/-- The service that stores the needed size in any case, and leaves the rest of
    the buffer alone. -/
def getMemoryMap (m : FirmwareMap) : GetMemoryMap := fun n buffer =>
  let old := buffer.getD fun _ => 0
  if n.toNat < m.size then ⟨efiBufferTooSmall, BitVec.ofNat 64 m.size, old, m.descriptorSize⟩
  else match buffer with
    | none => ⟨efiInvalidParameter, BitVec.ofNat 64 m.size, old, m.descriptorSize⟩
    | some _ =>
      ⟨efiSuccess, BitVec.ofNat 64 m.size, fun i => if i < m.size then m.bytes i else old i,
        m.descriptorSize⟩

theorem documents_getMemoryMap (m : FirmwareMap) : m.Documents m.getMemoryMap := by
  have hsize : (BitVec.ofNat 64 m.size).toNat = m.size := by
    have := m.fits
    rw [BitVec.toNat_ofNat, Nat.mod_eq_of_lt (by omega)]
  refine ⟨fun n buffer hn => ?_, fun n hn => ?_, fun n buffer hn => ?_⟩
  · simp only [getMemoryMap, if_pos hn, hsize, and_self]
  · simp only [getMemoryMap, if_neg (Nat.not_lt.2 hn)]
  · simp only [getMemoryMap, if_neg (Nat.not_lt.2 hn), hsize, true_and]
    exact fun i hi => if_pos hi

/-- The map of descriptors, 48 bytes apart. -/
def ofDescriptors (descs : List EfiMemoryDescriptor) (h : descs.length < 2 ^ 32) :
    FirmwareMap where
  bytes := mapBuffer 48 descs
  size := descs.length * 48
  descriptorSize := 48
  fits := by
    have : (48 : NxUintn).toNat = 48 := rfl
    omega

/-- A map of one page of conventional memory is small enough. -/
theorem onePage_fits : ([⟨7, 0x1000, 1, 0⟩] : List EfiMemoryDescriptor).length < 2 ^ 32 := by decide

end FirmwareMap

/-- The services with the map `m` all along, and a pool that never runs out. -/
def standardServices (m : FirmwareMap) : MapServices where
  sizing := m.getMemoryMap
  allocatePool _ := (efiSuccess, some fun _ => 0xAF)
  filling := m.getMemoryMap

/-- A firmware whose map is always `m`. -/
def Firmware.ofMap (m : FirmwareMap) (protocol : Option MemoryAttributeProtocol)
    (strHexToUint64 : List NxUiChar → NxU64) : Firmware where
  bootServices := ⟨if protocol.isSome then efiSuccess else efiNotFound, protocol⟩
  mapServices _ := standardServices m
  queryMode := (efiSuccess, 80, 25)
  strHexToUint64 := strHexToUint64

end UefiNexus
