/-
  What a failed `InitMemoryMap` leaves.

  The cached map is freed first, so where the sizing call fails there is none
  (`noMap_of_none`).  But the pointer of `AllocatePool` is kept when the second
  `GetMemoryMap` fails, together with the size the firmware asks for: the loops
  over the descriptors then read what the buffer happens to hold, and past its
  end (`InitRun.exposed`).  Over a history of calls, the failed ones expose
  nothing exactly if the map always fits in the buffer (`never_exposed_iff`).
-/
import UefiNexus.Proof.InitMemoryMap

namespace UefiNexus

variable {bs : BootServices} {lib lib' : MemLib}

/-! ## The descriptors a loop reads -/

namespace MemLib

/-- How many descriptors a loop reads that ends at the first one with `stop`. -/
def scanned (lib : MemLib) (stop : EfiMemoryDescriptor → Bool) : ℕ :=
  min (lib.descriptors.findIdx stop + 1) lib.descriptors.length

/-- Where the last one it reads ends in the buffer. -/
def scanEnd (lib : MemLib) (stop : EfiMemoryDescriptor → Bool) : ℕ :=
  if lib.scanned stop = 0 then 0
  else (lib.scanned stop - 1) * lib.gDescSize.toNat + efiDescriptorSize

theorem descriptors_none (h : lib.gMemMap = none) : lib.descriptors = [] := by
  rw [descriptors, h]

theorem scanEnd_none (h : lib.gMemMap = none) (stop : EfiMemoryDescriptor → Bool) :
    lib.scanEnd stop = 0 := by
  have hscanned : lib.scanned stop = 0 := by
    rw [scanned, descriptors_none h, List.length_nil, Nat.min_zero]
  rw [scanEnd, if_pos hscanned]

theorem length_descriptors (h : lib.gMemMap.isSome) (hd : lib.gDescSize ≠ 0) :
    lib.descriptors.length = lib.gMemMapSize.toNat / lib.gDescSize.toNat := by
  obtain ⟨buffer, hbuffer⟩ := Option.isSome_iff_exists.1 h
  simp only [descriptors, hbuffer, if_neg hd, List.length_map, List.length_range,
    BitVec.toNat_udiv]

/-- A loop that finds nothing reads every descriptor. -/
theorem scanEnd_all {stop : EfiMemoryDescriptor → Bool} {count : ℕ}
    (hcount : lib.descriptors.length = count + 1)
    (hstop : ∀ desc ∈ lib.descriptors, stop desc = false) :
    lib.scanEnd stop = count * lib.gDescSize.toNat + efiDescriptorSize := by
  have hidx : lib.descriptors.findIdx stop = lib.descriptors.length :=
    List.findIdx_eq_length.2 hstop
  have hscanned : lib.scanned stop = count + 1 := by
    rw [scanned, hidx, hcount]
    omega
  rw [scanEnd, hscanned, if_neg (by omega), Nat.add_sub_cancel]

end MemLib

/-! ## A library without a map -/

variable (bs) in
/-- **The library exposes no map**: every query of it is refused, and the loops
    read at most the first `allocated` bytes of a buffer. -/
structure NoMap (allocated : ℕ) (lib : MemLib) : Prop where
  rangeValid : ∀ address size, (isRangeValid bs lib address size).1 = false
  rangeWritable : ∀ address size, (isRangeWritable bs lib address size).1 = false
  pageValid : ∀ address pageSize, lib.isPageValid address pageSize = false
  read : ∀ memory address width value,
    efiError (memRead bs lib memory address width value).1 = true
  write : ∀ memory address width value,
    efiError (memWrite bs lib memory address width value).1 = true ∧
      (memWrite bs lib memory address width value).2.1 = memory
  scanRange : ∀ address length, ¬ (length = 0 ∨ address > maxUint64 - length) →
    lib.scanEnd (EfiMemoryDescriptor.containsRange address (address + length)) ≤ allocated
  scanPage : ∀ address pageSize, pageSize ≠ 0 →
    ¬ alignDown address pageSize > maxUint64 - pageSize →
    lib.scanEnd (fun desc => isMemoryTypeBrowsable desc.type &&
      desc.containsRange (alignDown address pageSize) (alignDown address pageSize + pageSize)) ≤
        allocated

theorem not_granted_of_none (h : lib.gMemMap = none) {a n : NxU64} (desc : EfiMemoryDescriptor)
    (attributes : NxU64) : ¬ Granted bs lib a n desc attributes := by
  intro hg
  have hmem := hg.first.mem
  rw [MemLib.descriptors_none h] at hmem
  exact absurd hmem List.not_mem_nil

/-- Without a buffer there is no map. -/
theorem noMap_of_none (h : lib.gMemMap = none) (allocated : ℕ) : NoMap bs allocated lib where
  rangeValid address size := by
    refine Bool.eq_false_iff.2 fun hvalid => ?_
    obtain ⟨desc, attributes, hg, -⟩ := isRangeValid_iff.1 hvalid
    exact not_granted_of_none h desc attributes hg
  rangeWritable address size := by
    refine Bool.eq_false_iff.2 fun hvalid => ?_
    obtain ⟨desc, attributes, hg, -⟩ := isRangeWritable_iff.1 hvalid
    exact not_granted_of_none h desc attributes hg
  pageValid address pageSize := by
    unfold MemLib.isPageValid
    rw [MemLib.descriptors_none h]
    dsimp only
    split_ifs <;> rfl
  read memory address width value := by
    cases value with
    | none => exact (by decide : efiError efiInvalidParameter = true)
    | some old =>
      have hno : ¬ ReadAllowed bs lib address width :=
        fun ⟨_, _, desc, attributes, hg, _⟩ => not_granted_of_none h desc attributes hg
      obtain ⟨status, lib', hr, he, -⟩ := memRead_of_not_allowed memory old hno
      rw [hr]
      exact he
  write memory address width value := by
    have hno : ¬ WriteAllowed bs lib address width :=
      fun ⟨_, _, desc, attributes, hg, _⟩ => not_granted_of_none h desc attributes hg
    obtain ⟨status, lib', hr, he, -⟩ := memWrite_of_not_allowed memory value hno
    rw [hr]
    exact ⟨he, rfl⟩
  scanRange address length _ := by
    rw [MemLib.scanEnd_none h]
    exact Nat.zero_le _
  scanPage address pageSize _ _ := by
    rw [MemLib.scanEnd_none h]
    exact Nat.zero_le _

/-- No descriptor has the whole address space. -/
theorem containsRange_all (desc : EfiMemoryDescriptor) :
    desc.containsRange 0 (0 + maxUint64) = false := by
  have hmax : maxUint64.toNat = 2 ^ 64 - 1 := rfl
  have hzero : (0 : NxU64).toNat = 0 := rfl
  refine Bool.eq_false_iff.2 fun hc => ?_
  obtain ⟨hwf, hstart, hstop⟩ :=
    (EfiMemoryDescriptor.containsRange_iff (by rw [hzero, hmax]; decide)).1 hc
  simp only [EfiMemoryDescriptor.WellFormed, EfiMemoryDescriptor.extent, Span.stop, rangeOf,
    hmax, hzero] at hwf hstart hstop
  omega

/-- A map of more bytes than allocated is read past the buffer. -/
theorem not_noMap {allocated count stride : ℕ} (h : lib.gMemMap.isSome)
    (hd : lib.gDescSize.toNat = stride) (hstride : efiDescriptorSize ≤ stride)
    (hn : lib.gMemMapSize.toNat = (count + 1) * stride)
    (hpast : allocated < count * stride + efiDescriptorSize) : ¬ NoMap bs allocated lib := by
  intro hno
  have hsize : efiDescriptorSize = 40 := rfl
  have hne : lib.gDescSize ≠ 0 := by
    intro hzero
    have : (0 : NxUintn).toNat = 0 := rfl
    rw [hzero] at hd
    omega
  have hlength : lib.descriptors.length = count + 1 := by
    rw [MemLib.length_descriptors h hne, hd, hn, Nat.mul_div_cancel _ (by omega)]
  have hscan := hno.scanRange 0 maxUint64 (by decide)
  rw [MemLib.scanEnd_all hlength fun desc _ => containsRange_all desc, hd] at hscan
  omega

/-! ## One call -/

/-- One call of `InitMemoryMap` as UEFI allows it: the map may grow at will
    between the two calls of `GetMemoryMap`, the pool may fail or hand out a buffer
    with any contents.  The maps are arrays of descriptors of one size. -/
structure InitAttempt where
  sizing : FirmwareMap
  filling : FirmwareMap
  services : MapServices
  documents_sizing : sizing.Documents services.sizing
  documents_filling : filling.Documents services.filling
  allocates : ∀ n, efiError (services.allocatePool n).1 = false →
    (services.allocatePool n).2.isSome
  descriptorSize : efiDescriptorSize ≤ sizing.descriptorSize.toNat
  sameSize : filling.descriptorSize = sizing.descriptorSize
  sizing_dvd : sizing.descriptorSize.toNat ∣ sizing.size
  filling_dvd : sizing.descriptorSize.toNat ∣ filling.size
  queries : List (NxU64 × NxU64)

namespace InitAttempt

/-- The size the pool is asked for. -/
def request (call : InitAttempt) : NxUintn :=
  BitVec.ofNat 64 (call.sizing.size + 2 * call.sizing.descriptorSize.toNat)

/-- What the pool answers. -/
def pool (call : InitAttempt) : EfiStatus × Option Buffer :=
  call.services.allocatePool call.request

/-- The bytes of the buffer the call allocates. -/
def allocated (call : InitAttempt) : ℕ :=
  if efiError call.pool.1 then 0 else call.request.toNat

variable (lib) in
/-- Where the call gets to the pool, either the pool fails without a pointer, or
    the map fits in its buffer. -/
def Fits (call : InitAttempt) : Prop :=
  lib.gMemMapSize.toNat < call.sizing.size →
    if efiError call.pool.1 then call.pool.2 = none else call.filling.size ≤ call.request.toNat

theorem toNat_request (call : InitAttempt) :
    call.request.toNat = call.sizing.size + 2 * call.sizing.descriptorSize.toNat := by
  have hfits := call.sizing.fits
  rw [request, BitVec.toNat_ofNat, Nat.mod_eq_of_lt hfits]

end InitAttempt

variable (lib) in
/-- The ways a call can go. -/
inductive InitRun (call : InitAttempt) : EfiStatus × MemLib → Prop where
  | refused {lib' : MemLib} (hsize : call.sizing.size ≤ lib.gMemMapSize.toNat)
    (hmap : lib'.gMemMap = none) : InitRun call (efiInvalidParameter, lib')
  | noPool {lib' : MemLib} (hsize : lib.gMemMapSize.toNat < call.sizing.size)
    (hpool : efiError call.pool.1 = true) (hmap : lib'.gMemMap = call.pool.2)
    (hn : lib'.gMemMapSize = call.request) (hd : lib'.gDescSize = call.sizing.descriptorSize) :
    InitRun call (call.pool.1, lib')
  | fetched {lib' : MemLib} (hsize : lib.gMemMapSize.toNat < call.sizing.size)
    (hpool : efiError call.pool.1 = false) (hfits : call.filling.size ≤ call.request.toNat) :
    InitRun call (efiSuccess, lib')
  | outgrown {lib' : MemLib} (hsize : lib.gMemMapSize.toNat < call.sizing.size)
    (hpool : efiError call.pool.1 = false) (hfits : call.request.toNat < call.filling.size)
    (hmap : lib'.gMemMap.isSome) (hn : lib'.gMemMapSize.toNat = call.filling.size)
    (hd : lib'.gDescSize = call.sizing.descriptorSize) :
    InitRun call (efiBufferTooSmall, lib')

variable (bs lib) in
theorem initMemoryMap_run (call : InitAttempt) :
    InitRun lib call (initMemoryMap bs call.services lib) := by
  rcases Nat.lt_or_ge lib.gMemMapSize.toNat call.sizing.size with hsize | hsize
  · obtain ⟨hs, hn, hd⟩ := call.documents_sizing.tooSmall lib.gMemMapSize none hsize
    have hrequest : (call.services.sizing lib.gMemMapSize none).memoryMapSize +
        (call.services.sizing lib.gMemMapSize none).descriptorSize * 2 = call.request := by
      have hfits := call.sizing.fits
      apply BitVec.eq_of_toNat_eq
      rw [call.toNat_request, hd]
      bv_omega
    have hpool : call.services.allocatePool call.request = call.pool := rfl
    simp only [initMemoryMap, hs, ne_eq, not_true_eq_false, if_false, hrequest, hpool]
    by_cases herr : efiError call.pool.1 = true
    · rw [if_pos herr]
      exact .noPool hsize herr rfl rfl hd
    · rw [if_neg herr]
      have hok := Bool.eq_false_iff.2 herr
      obtain ⟨buffer, hbuffer⟩ := Option.isSome_iff_exists.1 (call.allocates call.request hok)
      rw [hpool] at hbuffer
      rw [hbuffer]
      rcases Nat.lt_or_ge call.request.toNat call.filling.size with hfits | hfits
      · obtain ⟨hfs, hfn, hfd⟩ :=
          call.documents_filling.tooSmall call.request (some buffer) hfits
        have hbad : efiError efiBufferTooSmall = true := by decide
        rw [hfs, if_pos hbad]
        exact .outgrown hsize hok hfits rfl hfn (hfd.trans call.sameSize)
      · obtain ⟨hfs, -⟩ := call.documents_filling.fills call.request buffer hfits
        have hgood : ¬ efiError efiSuccess = true := by decide
        rw [hfs, if_neg hgood]
        exact .fetched hsize hok hfits
  · have hs := call.documents_sizing.noBuffer lib.gMemMapSize hsize
    have hne : efiInvalidParameter ≠ efiBufferTooSmall := by decide
    simp only [initMemoryMap, hs, ne_eq, hne, not_false_eq_true, if_true]
    exact .refused hsize rfl

/-- Where the map fits, a call that fails leaves no buffer. -/
theorem InitRun.memMap_none {call : InitAttempt} {r : EfiStatus × MemLib} (h : InitRun lib call r)
    (hfits : call.Fits lib) (herr : efiError r.1 = true) : r.2.gMemMap = none := by
  cases h with
  | refused hsize hmap => exact hmap
  | noPool hsize hpool hmap =>
    have hnone := hfits hsize
    rw [if_pos hpool] at hnone
    exact hmap.trans hnone
  | fetched => exact absurd herr (by decide : ¬ efiError efiSuccess = true)
  | outgrown hsize hpool hgrown =>
    have hle := hfits hsize
    rw [if_neg (Bool.eq_false_iff.1 hpool)] at hle
    omega

variable (bs) in
/-- A pool that fails and leaves a pointer leaves a map of a buffer of no bytes. -/
theorem not_noMap_of_noPool {call : InitAttempt} {lib' : MemLib}
    (hpool : efiError call.pool.1 = true) (hsome : lib'.gMemMap.isSome)
    (hn : lib'.gMemMapSize = call.request) (hd : lib'.gDescSize = call.sizing.descriptorSize) :
    ¬ NoMap bs call.allocated lib' := by
  obtain ⟨k, hk⟩ := call.sizing_dvd
  have hallocated : call.allocated = 0 := by rw [InitAttempt.allocated, if_pos hpool]
  -- the pool was asked for two descriptors at least
  have hsize : lib'.gMemMapSize.toNat = (k + 1 + 1) * call.sizing.descriptorSize.toNat := by
    rw [hn, call.toNat_request, hk, Nat.add_assoc, Nat.add_mul, Nat.mul_comm]
  have hpast : call.allocated <
      (k + 1) * call.sizing.descriptorSize.toNat + efiDescriptorSize := by
    rw [hallocated]
    exact Nat.add_pos_right _ (by decide)
  exact not_noMap hsome (by rw [hd]) call.descriptorSize hsize hpast

variable (bs) in
/-- A map that outgrows its buffer leaves a map that is read past the end. -/
theorem not_noMap_of_outgrown {call : InitAttempt} {lib' : MemLib}
    (hpool : efiError call.pool.1 = false) (hgrown : call.request.toNat < call.filling.size)
    (hmap : lib'.gMemMap.isSome) (hn : lib'.gMemMapSize.toNat = call.filling.size)
    (hd : lib'.gDescSize = call.sizing.descriptorSize) : ¬ NoMap bs call.allocated lib' := by
  obtain ⟨k, hk⟩ := call.sizing_dvd
  have hrequest := call.toNat_request
  have hallocated : call.allocated = call.request.toNat := by
    rw [InitAttempt.allocated, if_neg (Bool.eq_false_iff.1 hpool)]
  -- the map has grown by three descriptors at least
  obtain ⟨c, hc⟩ := call.filling_dvd
  have hlt : k + 2 < c := by
    have hmul : call.sizing.descriptorSize.toNat * (k + 2) <
        call.sizing.descriptorSize.toNat * c := by
      rw [Nat.mul_add]
      omega
    exact Nat.lt_of_mul_lt_mul_left hmul
  obtain ⟨count, rfl⟩ : ∃ count, c = count + 1 := ⟨c - 1, by omega⟩
  have hsize := hn.trans (hc.trans (Nat.mul_comm _ _))
  have hpast : call.allocated < count * call.sizing.descriptorSize.toNat + efiDescriptorSize := by
    have hle : (k + 2) * call.sizing.descriptorSize.toNat ≤
        count * call.sizing.descriptorSize.toNat := Nat.mul_le_mul_right _ (by omega)
    have hdesc : efiDescriptorSize = 40 := rfl
    rw [Nat.add_mul, Nat.mul_comm k] at hle
    omega
  exact not_noMap hmap (by rw [hd]) call.descriptorSize hsize hpast

variable (bs) in
/-- Where it does not, the call fails and leaves a buffer that is read past its end. -/
theorem InitRun.exposed {call : InitAttempt} {r : EfiStatus × MemLib} (h : InitRun lib call r)
    (hfits : ¬ call.Fits lib) : efiError r.1 = true ∧ ¬ NoMap bs call.allocated r.2 := by
  cases h with
  | refused hsize hmap => exact absurd (fun hlt => absurd hlt (by omega)) hfits
  | @noPool lib' hsize hpool hmap hn hd =>
    have hsome : lib'.gMemMap.isSome := by
      rw [hmap, Option.isSome_iff_ne_none]
      intro hnone
      refine hfits fun _ => ?_
      rw [if_pos hpool]
      exact hnone
    exact ⟨hpool, not_noMap_of_noPool bs hpool hsome hn hd⟩
  | fetched hsize hpool hle =>
    refine absurd (fun _ => ?_) hfits
    rw [if_neg (Bool.eq_false_iff.1 hpool)]
    exact hle
  | outgrown hsize hpool hgrown hmap hn hd =>
    have hbad : efiError efiBufferTooSmall = true := by decide
    exact ⟨hbad, not_noMap_of_outgrown bs hpool hgrown hmap hn hd⟩

/-! ## A history of calls -/

variable (bs) in
/-- After every call that fails, the library exposes no map, up to the next call. -/
def NeverExposed : MemLib → List InitAttempt → Prop
  | _, [] => True
  | lib, call :: calls =>
    (efiError (initMemoryMap bs call.services lib).1 = true → ∀ n,
      NoMap bs call.allocated
        (afterQueries bs (call.queries.take n) (initMemoryMap bs call.services lib).2)) ∧
    NeverExposed (afterQueries bs call.queries (initMemoryMap bs call.services lib).2) calls

variable (bs) in
/-- Every call finds a map that fits. -/
def AlwaysFits : MemLib → List InitAttempt → Prop
  | _, [] => True
  | lib, call :: calls =>
    call.Fits lib ∧
    AlwaysFits (afterQueries bs call.queries (initMemoryMap bs call.services lib).2) calls

/-- **A failed initialization exposes no map** up to the next one, in a history of
    calls and queries from any state, exactly if the failures of the pool leave no
    pointer and the map that is fetched always fits in the buffer. -/
theorem never_exposed_iff (bs : BootServices) (lib : MemLib) (calls : List InitAttempt) :
    NeverExposed bs lib calls ↔ AlwaysFits bs lib calls := by
  induction calls generalizing lib with
  | nil => exact Iff.rfl
  | cons call calls ih =>
    rw [NeverExposed, AlwaysFits, ih]
    refine and_congr_left fun _ => ?_
    have hrun := initMemoryMap_run bs lib call
    constructor
    · intro hnever
      by_contra hfits
      obtain ⟨herr, hexposed⟩ := hrun.exposed bs hfits
      exact hexposed (hnever herr 0)
    · intro hfits herr n
      refine noMap_of_none ?_ _
      rw [(afterQueries_keeps _ _).1]
      exact hrun.memMap_none hfits herr

/-! ## A map that grows by three descriptors -/

/-- One page of conventional memory, described `n` times. -/
def copiesMap (n : ℕ) (h : n < 2 ^ 32) : FirmwareMap :=
  .ofDescriptors (List.replicate n ⟨7, 0x1000, 1, 0⟩) (by rw [List.length_replicate]; exact h)

/-- A firmware whose map grows from one descriptor to four between the two calls
    of `GetMemoryMap`, and whose pool hands out a buffer that held a descriptor. -/
def grownAttempt : InitAttempt where
  sizing := copiesMap 1 (by decide)
  filling := copiesMap 4 (by decide)
  services := ⟨(copiesMap 1 (by decide)).getMemoryMap,
    fun _ => (efiSuccess, some (mapBuffer 48 [⟨7, 0xA000, 1, 0⟩])),
    (copiesMap 4 (by decide)).getMemoryMap⟩
  documents_sizing := FirmwareMap.documents_getMemoryMap _
  documents_filling := FirmwareMap.documents_getMemoryMap _
  allocates _ _ := rfl
  descriptorSize := by decide
  sameSize := rfl
  sizing_dvd := by decide
  filling_dvd := by decide
  queries := []

/-- The initialization fails, and the page of the old descriptor is valid and is
    read. -/
theorem failed_init_exposes :
    ¬ NeverExposed ⟨efiSuccess, some fun _ _ => (efiSuccess, 0)⟩ .initial [grownAttempt] ∧
    (initMemoryMap ⟨efiSuccess, some fun _ _ => (efiSuccess, 0)⟩ grownAttempt.services
      .initial).1 = efiBufferTooSmall ∧
    (initMemoryMap ⟨efiSuccess, some fun _ _ => (efiSuccess, 0)⟩ grownAttempt.services
      .initial).2.isPageValid 0xA000 256 = true ∧
    (memRead ⟨efiSuccess, some fun _ _ => (efiSuccess, 0)⟩
      (initMemoryMap ⟨efiSuccess, some fun _ _ => (efiSuccess, 0)⟩ grownAttempt.services
        .initial).2 (fun _ => 0xFF) 0xA000 1 (some 0)).1 = efiSuccess := by
  have hstatus : (initMemoryMap ⟨efiSuccess, some fun _ _ => (efiSuccess, 0)⟩
      grownAttempt.services .initial).1 = efiBufferTooSmall := by decide
  have hpage : (initMemoryMap ⟨efiSuccess, some fun _ _ => (efiSuccess, 0)⟩
      grownAttempt.services .initial).2.isPageValid 0xA000 256 = true := by decide +kernel
  refine ⟨?_, hstatus, hpage, by decide +kernel⟩
  rintro ⟨hnever, -⟩
  have hno := hnever (by rw [hstatus]; decide) 0
  exact absurd (hpage.symm.trans (hno.pageValid 0xA000 256)) (by decide)

end UefiNexus
