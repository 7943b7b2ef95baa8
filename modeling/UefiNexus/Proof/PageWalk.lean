/-
  Walks over the pages of NexusMemLib, and the page keys of PageMem.

  * `page_walk`: from the page of the first address, `GetNextValidPageAddress` visits
    every page there is, in ascending order, and `GetPreviousValidPageAddress`
    goes the same way back;
  * `page_keys_follow_library`: the page keys take PageMem where these functions
    go, though PageMem searches a copy of the map with code of its own.
-/
import UefiNexus.Proof.FirstAddress
import UefiNexus.Proof.PageNavigation
import UefiNexus.Proof.Reachable

namespace UefiNexus

open Align (PowTwo)
open Viewer

/-! ## One step -/

section
variable {lib : MemLib} {p a : NxU64} (hp : PowTwo p)
include hp

theorem libPage_of_uncached (h : lib.gMemMap.isNone = true ∨ lib.gDescSize = 0) (q : NxU64) :
    ¬ LibPage lib p q := by
  rw [libPage_iff hp, descriptors_eq_nil h]
  rintro ⟨-, desc, hmem, -⟩
  exact absurd hmem (by simp)

/-- From a page, the next page is exact; without a cached map there is none. -/
theorem nextPage_of_page (ha : p.toNat ∣ a.toNat) :
    IsNextPage lib p a (lib.getNextValidPageAddress a p) := by
  by_cases hcached : p = 0 ∨ lib.gMemMap.isNone = true ∨ lib.gDescSize = 0
  · have hstay : lib.getNextValidPageAddress a p = a := by
      unfold MemLib.getNextValidPageAddress getNextValidPageAddress
      rw [if_pos hcached]
      rfl
    rw [hstay]
    exact .of_none fun q hq _ => libPage_of_uncached hp (hcached.resolve_left hp.ne_zero) q hq
  · obtain ⟨r, hr, hleast⟩ := getNextValidPageAddress_computes hp hcached a
    have hrun : lib.getNextValidPageAddress a p = r := hr.wrapping
    have hbase : alignDown a p = a := Align.and_not_mask_of_dvd hp ha
    rw [hrun]
    rwa [hbase] at hleast

theorem previousPage_of_page (ha : p.toNat ∣ a.toNat) :
    IsPreviousPage lib p a (lib.getPreviousValidPageAddress a p) := by
  by_cases hcached : p = 0 ∨ lib.gMemMap.isNone = true ∨ lib.gDescSize = 0
  · have hstay : lib.getPreviousValidPageAddress a p = a := by
      unfold MemLib.getPreviousValidPageAddress getPreviousValidPageAddress
      rw [if_pos hcached]
      rfl
    rw [hstay]
    exact .of_none fun q hq _ => libPage_of_uncached hp (hcached.resolve_left hp.ne_zero) q hq
  · obtain ⟨r, hr, hgreatest⟩ := getPreviousValidPageAddress_computes hp hcached a
    have hrun : lib.getPreviousValidPageAddress a p = r := hr.wrapping
    have hbase : alignDown a p = a := Align.and_not_mask_of_dvd hp ha
    rw [hrun]
    rwa [hbase] at hgreatest

end

/-- The addresses of the pages, as numbers. -/
def libPages (lib : MemLib) (pageSize : NxU64) (n : ℕ) : Prop :=
  ∃ q, LibPage lib pageSize q ∧ q.toNat = n

/-- `GetNextValidPageAddress` walks up the pages. -/
theorem getNext_stepsUp (lib : MemLib) {p : NxU64} (hp : PowTwo p) :
    Search.StepsUp (libPages lib p) BitVec.toNat (lib.getNextValidPageAddress · p)
      (fun a => p.toNat ∣ a.toNat) := by
  refine ⟨?_, ?_, ?_⟩
  · intro a ha
    have hnext : IsNextPage lib p a (lib.getNextValidPageAddress a p) := nextPage_of_page hp ha
    by_cases hex : ∃ q, LibPage lib p q ∧ a < q
    · exact (hnext.least hex).1.1
    · rw [hnext.stay hex]
      exact ha
  · rintro a ha ⟨_, ⟨q, hq, rfl⟩, hlt⟩
    obtain ⟨hpage, hlt, hleast⟩ := (nextPage_of_page hp ha).least ⟨q, hq, hlt⟩
    refine ⟨⟨_, hpage, rfl⟩, hlt, ?_⟩
    rintro _ ⟨q', hq', rfl⟩ hlt'
    exact hleast q' hq' hlt'
  · intro a ha hnone
    refine (nextPage_of_page hp ha).stay ?_
    rintro ⟨q, hq, hlt⟩
    exact hnone _ ⟨q, hq, rfl⟩ hlt

/-- `GetPreviousValidPageAddress` walks down the pages. -/
theorem getPrevious_stepsDown (lib : MemLib) {p : NxU64} (hp : PowTwo p) :
    Search.StepsDown (libPages lib p) BitVec.toNat (lib.getPreviousValidPageAddress · p)
      (fun a => p.toNat ∣ a.toNat) := by
  refine ⟨?_, ?_⟩
  · intro a ha
    have hprevious : IsPreviousPage lib p a (lib.getPreviousValidPageAddress a p) :=
      previousPage_of_page hp ha
    by_cases hex : ∃ q, LibPage lib p q ∧ q < a
    · exact (hprevious.greatest hex).1.1
    · rw [hprevious.stay hex]
      exact ha
  · rintro a ha ⟨_, ⟨q, hq, rfl⟩, hlt⟩
    obtain ⟨hpage, hlt, hgreatest⟩ := (previousPage_of_page hp ha).greatest ⟨q, hq, hlt⟩
    refine ⟨⟨_, hpage, rfl⟩, hlt, ?_⟩
    rintro _ ⟨q', hq', rfl⟩ hlt'
    exact hgreatest q' hq' hlt'

/-! ## The walk -/

section
variable {lib : MemLib} {p : NxU64}

/-- No page is below the page of the first address. -/
theorem LibPage.first_le (hp : PowTwo p) {q : NxU64} (hq : LibPage lib p q) :
    alignDown lib.getFirstValidAddress p ≤ q := by
  obtain ⟨-, desc, hmem, htype, hstart, hend, hlt⟩ := (libPage_iff hp).1 hq
  have hpos := hp.pos
  have hproper : Proper (toCore desc) :=
    ⟨(isDescriptorValid_toCore desc).trans htype, show 0 < desc.numberOfPages.toNat by omega, hlt⟩
  have hin : toCore desc ∈ lib.descriptors.map toCore := List.mem_map_of_mem hmem
  have hleast := ((getFirstValidAddress_spec (forall₂_toCore lib.descriptors)).1
    ⟨_, hin, hproper⟩).2 _ hin hproper
  have hfirst : lib.getFirstValidAddress.toNat ≤ desc.physicalStart.toNat := hleast
  rw [BitVec.le_def, toNat_alignDown hp]
  omega

variable {bs : BootServices}

/-- The page of a byte that may be read or written. -/
theorem Granted.libPage {a n attributes : NxU64} {desc : EfiMemoryDescriptor}
    (h : Granted bs lib a n desc attributes) (hp : PowTwo p) (hsize : p.toNat ∣ 4096)
    (hal : 4096 ∣ desc.physicalStart.toNat) (htype : isMemoryTypeBrowsable desc.type = true)
    {x : NxU64} (hle : a.toNat ≤ x.toNat) (hlt : x.toNat < a.toNat + n.toNat) :
    LibPage lib p (alignDown x p) := by
  have hholds : desc.Contains (rangeOf a n) := h.first.holds
  simp only [EfiMemoryDescriptor.Contains, Table.Contains, EfiMemoryDescriptor.WellFormed,
    Span.Within, rangeOf, Span.stop, EfiMemoryDescriptor.extent] at hholds
  obtain ⟨⟨-, hend⟩, hstart, hstop⟩ := hholds
  have hbase : p.toNat ∣ (alignDown x p).toNat := Align.dvd_and_not_mask hp
  have hstartDvd : p.toNat ∣ desc.physicalStart.toNat := hsize.trans hal
  have hendDvd : p.toNat ∣ desc.physicalStart.toNat + desc.numberOfPages.toNat * 4096 :=
    Nat.dvd_add hstartDvd (hsize.mul_left _)
  have hround := toNat_alignDown hp x
  have hmod := Nat.mod_lt x.toNat hp.pos
  refine (libPage_iff hp).2 ⟨hbase, desc, h.first.mem, htype, ?_, ?_, hend⟩
  · -- the start is a multiple of the page size, too
    by_contra hbelow
    have hnext := Align.add_le_of_lt hbase hstartDvd (Nat.not_le.1 hbelow)
    omega
  · exact Align.add_le_of_lt hbase hendDvd (by omega)

end

theorem readableTypes_browsable {type : NxU32} (h : type ∈ readableTypes) :
    isMemoryTypeBrowsable type = true :=
  decide_eq_true (List.mem_append_left _ h)

theorem writableTypes_readable {type : NxU32} (h : type ∈ writableTypes) : type ∈ readableTypes :=
  List.mem_append_left _ h

/-- The page after `n` calls of `GetNextValidPageAddress`. -/
def pageWalk (lib : MemLib) (pageSize : NxU64) (n : ℕ) : NxU64 :=
  (lib.getNextValidPageAddress · pageSize)^[n] (alignDown lib.getFirstValidAddress pageSize)

/-- In `N` steps the walk visits every page, and the way back is the same. -/
structure WalksPages (lib : MemLib) (pageSize : NxU64) (N : ℕ) : Prop where
  ascending : ∀ i j, i < j → j ≤ N → pageWalk lib pageSize i < pageWalk lib pageSize j
  ends : ∀ n, N ≤ n → pageWalk lib pageSize n = pageWalk lib pageSize N
  page : ∀ i, 1 ≤ i → i ≤ N → LibPage lib pageSize (pageWalk lib pageSize i)
  visits : ∀ q, LibPage lib pageSize q → ∃ i ≤ N, pageWalk lib pageSize i = q
  back : ∀ k ≤ N, (k = N → LibPage lib pageSize (pageWalk lib pageSize 0)) →
    (lib.getPreviousValidPageAddress · pageSize)^[k] (pageWalk lib pageSize N) =
      pageWalk lib pageSize (N - k)

theorem walksPages (lib : MemLib) {pageSize : NxU64} (hp : PowTwo pageSize) :
    ∃ N, WalksPages lib pageSize N := by
  have hup := getNext_stepsUp lib hp
  have hstart : pageSize.toNat ∣ (alignDown lib.getFirstValidAddress pageSize).toNat :=
    Align.dvd_and_not_mask hp
  obtain ⟨N, hasc, hends, hvisits⟩ := hup.walk
    (fun _ ⟨q, _, hq⟩ => hq ▸ q.isLt) _ hstart
  have hpage : ∀ i, 1 ≤ i → i ≤ N → LibPage lib pageSize (pageWalk lib pageSize i) := by
    intro i h1 hi
    obtain ⟨⟨q, hq, heq⟩, -⟩ := (hvisits _).1 ⟨i, h1, hi, rfl⟩
    rwa [BitVec.eq_of_toNat_eq heq] at hq
  refine ⟨N, hasc, hends, hpage, fun q hq => ?_, fun k hk hfirst => ?_⟩
  · rcases Nat.lt_or_eq_of_le (BitVec.le_def.1 (hq.first_le hp)) with hlt | heq
    · obtain ⟨i, -, hi, heq⟩ := (hvisits q.toNat).2 ⟨⟨q, hq, rfl⟩, hlt⟩
      exact ⟨i, hi, BitVec.eq_of_toNat_eq heq⟩
    · exact ⟨0, Nat.zero_le _, BitVec.eq_of_toNat_eq heq⟩
  · refine hup.walk_back (getPrevious_stepsDown lib hp)
      (fun _ _ _ _ => BitVec.eq_of_toNat_eq) hstart
      (fun i hi => hasc i (i + 1) (Nat.lt_succ_self i) hi)
      (fun i h1 hi => ⟨_, hpage i h1 hi, rfl⟩) hk fun hkN => ⟨_, hfirst hkN, rfl⟩

/-- **The walk over the pages.**  For every power of two as the page size, repeating
    `GetNextValidPageAddress` from the page of `GetFirstValidAddress` visits every
    valid page, in ascending order, and then stays; repeating
    `GetPreviousValidPageAddress` from there visits them in the opposite order.
    If the page size divides 4 KiB, as the starts of the descriptors do, no byte
    that `MemRead` or `MemWrite` accepts is outside the pages visited. -/
theorem page_walk (bs : BootServices) (lib : MemLib) (pageSize : NxU64) (hp : PowTwo pageSize) :
    ∃ N, WalksPages lib pageSize N ∧
      (pageSize.toNat ∣ 4096 → (∀ desc ∈ lib.descriptors, 4096 ∣ desc.physicalStart.toNat) →
        ∀ (memory : PhysMem) (address : NxU64) (width : NxUintn) (value : NxU64),
          (memRead bs lib memory address width (some value)).1 = efiSuccess ∨
            (memWrite bs lib memory address width value).1 = efiSuccess →
          ∀ x : NxU64, address.toNat ≤ x.toNat → x.toNat < address.toNat + width.toNat →
            ∃ i ≤ N, pageWalk lib pageSize i = alignDown x pageSize) := by
  obtain ⟨N, hwalk⟩ := walksPages lib hp
  refine ⟨N, hwalk, ?_⟩
  intro hsize hal memory address width value haccess x hle hlt
  obtain ⟨desc, attributes, hgranted, hreadable⟩ : ∃ desc attributes,
      Granted bs lib address width desc attributes ∧ desc.type ∈ readableTypes := by
    rcases haccess with hread | hwrite
    · obtain ⟨-, -, desc, attributes, hgranted, htype, -⟩ := memRead_success_iff.1 hread
      exact ⟨desc, attributes, hgranted, htype⟩
    · obtain ⟨-, -, desc, attributes, hgranted, htype, -⟩ := memWrite_success_iff.1 hwrite
      exact ⟨desc, attributes, hgranted, writableTypes_readable htype⟩
  exact hwalk.visits _ (hgranted.libPage hp hsize (hal desc hgranted.first.mem)
    (readableTypes_browsable hreadable) hle hlt)

/-- The library with a page of conventional memory, without restrictions. -/
def openLib : MemLib := .ofDescriptors [⟨7, 0x1000, 1, 0⟩] (some fun _ _ => (efiSuccess, 0))

theorem openLib_descriptors : openLib.descriptors = [⟨7, 0x1000, 1, 0⟩] :=
  descriptors_ofDescriptors (by decide)

/-- The bytes of a word that may be read are in pages of 256 bytes that are visited. -/
theorem page_walk_word :
    ∃ N, WalksPages openLib 256 N ∧
      ∀ x : NxU64, 0x1234 ≤ x.toNat → x.toNat < 0x1238 →
        ∃ i ≤ N, pageWalk openLib 256 i = alignDown x 256 := by
  obtain ⟨N, hwalk, hbytes⟩ := page_walk codecFirmware.bootServices openLib 256 ⟨8, rfl⟩
  refine ⟨N, hwalk, hbytes ⟨16, rfl⟩ ?_ (fun _ => 0) 0x1234 4 0 (Or.inl (by decide +kernel))⟩
  intro desc hmem
  rw [openLib_descriptors] at hmem
  rw [List.mem_singleton.1 hmem]
  exact ⟨1, rfl⟩

/-! ## The page keys -/

/-- The keys of page down and page up. -/
def pageKeys : List EfiInputKey := [nextKey, previousKey]

/-- Where the functions of NexusMemLib go for a page key. -/
def turnTo (lib : MemLib) (page : NxU64) (key : EfiInputKey) : NxU64 :=
  if key = nextKey then lib.getNextValidPageAddress page pageSize
  else lib.getPreviousValidPageAddress page pageSize

/-- With at most 128 descriptors, none of `2 ^ 52` pages or more, the blocks of PageMem
    are the pages of NexusMemLib. -/
theorem Copied.block_iff {w : UefiWorld} (hw : Copied w)
    (hlen : w.memLib.descriptors.length ≤ maxDescriptors)
    (hpages : ∀ desc ∈ w.memLib.descriptors, desc.numberOfPages.toNat < 2 ^ 52) {q : NxU64} :
    Block ⟨some (coreDescriptors w)⟩ q ↔ LibPage w.memLib pageSize q := by
  rw [Copied, List.take_of_length_le hlen] at hw
  rw [Block, hw, core_isRangeValid_iff pageSize_powTwo, libPage_iff pageSize_powTwo]
  refine and_congr_right fun _ => exists_congr fun desc => and_congr_right fun hmem => ?_
  refine ⟨fun h => ?_, Or.inl⟩
  rcases h with h | hwraps
  · exact h
  · exact absurd (hpages desc hmem) (Nat.not_lt.2 hwraps.pages)

/-- The map of a run. -/
theorem visited_copied {fw : Firmware} {n : ℕ} {s₀ s : PageMemPageState} {w₀ w : UefiWorld}
    (h : runVisits (uefiAdapters fw) n s₀ w₀ = some (s, w)) :
    Copied w ∧ s.addressMap = ⟨some (coreDescriptors w)⟩ := by
  obtain ⟨w₁, descriptors, w₂, hinit, hdescs, hmap, hsame⟩ :=
    runVisits_frame (uefiAdapters_sameMaps fw) h
  have hmem : memAdapterInit fw w₀ = (some .success, w₁) := hinit
  have hcopied : Copied w₁ := by
    have hcopied := memAdapterInit_copied (congrArg Prod.fst hmem)
    rwa [hmem] at hcopied
  have hcore : coreDescriptors w₁ = descriptors :=
    Option.some.inj (Option.some.inj (congrArg Prod.fst hdescs))
  rw [hmap, ← hcore, hsame.core]
  exact ⟨hsame.copied hcopied, rfl⟩

/-- The map starts at multiples of 4 KiB. -/
theorem Copied.mapAligned {w : UefiWorld} (hw : Copied w)
    (hal : ∀ desc ∈ w.memLib.descriptors, 4096 ∣ desc.physicalStart.toNat) :
    MapAligned ⟨some (coreDescriptors w)⟩ := by
  rintro ds hds desc hmem
  obtain rfl := Option.some.inj hds
  rw [hw] at hmem
  obtain ⟨efi, hefi, rfl⟩ := List.mem_map.1 hmem
  exact hal efi (List.mem_of_mem_take hefi)

section
variable {blocks : Set ℕ} {lib : MemLib} {p a : NxU64}

/-- The viewer's next block is the next page. -/
theorem turn_above (hblocks : ∀ n, n ∈ blocks ↔ libPages lib p n) {r : NxU64}
    (h : IsNextPage lib p a r) {v : Viewer} (hv : v.block = a.toNat) :
    (v.turn (above blocks v.block)).block = r.toNat := by
  rw [hv]
  by_cases hex : ∃ q, LibPage lib p q ∧ a < q
  · obtain ⟨hr, hlt, hleast⟩ := h.least hex
    have habove : above blocks a.toNat = some r.toNat := by
      refine above_eq_some.2 ⟨⟨(hblocks _).2 ⟨r, hr, rfl⟩, hlt⟩, ?_⟩
      rintro n ⟨hn, hlt'⟩
      obtain ⟨q, hq, rfl⟩ := (hblocks n).1 hn
      exact hleast q hq hlt'
    rw [habove]
    rfl
  · have habove : above blocks a.toNat = none := by
      refine above_eq_none.2 fun n hn hlt => ?_
      obtain ⟨q, hq, rfl⟩ := (hblocks n).1 hn
      exact hex ⟨q, hq, hlt⟩
    rw [habove, h.stay hex]
    exact hv

/-- The viewer's previous block is the previous page. -/
theorem turn_below (hblocks : ∀ n, n ∈ blocks ↔ libPages lib p n) {r : NxU64}
    (h : IsPreviousPage lib p a r) {v : Viewer} (hv : v.block = a.toNat) :
    (v.turn (below blocks v.block)).block = r.toNat := by
  rw [hv]
  by_cases hex : ∃ q, LibPage lib p q ∧ q < a
  · obtain ⟨hr, hlt, hgreatest⟩ := h.greatest hex
    have hbelow : below blocks a.toNat = some r.toNat := by
      refine below_eq_some.2 ⟨⟨(hblocks _).2 ⟨r, hr, rfl⟩, hlt⟩, ?_⟩
      rintro n ⟨hn, hlt'⟩
      obtain ⟨q, hq, rfl⟩ := (hblocks n).1 hn
      exact hgreatest q hq hlt'
    rw [hbelow]
    rfl
  · have hbelow : below blocks a.toNat = none := by
      refine below_eq_none.2 fun n hn hlt => ?_
      obtain ⟨q, hq, rfl⟩ := (hblocks n).1 hn
      exact hex ⟨q, hq, hlt⟩
    rw [hbelow, h.stay hex]
    exact hv

end

section
variable {m : Viewed} {lib : MemLib} (hblocks : ∀ n, n ∈ m.blocks ↔ libPages lib pageSize n)
include hblocks

/-- A page key turns to the page of NexusMemLib. -/
theorem drives_pageKey {key : EfiInputKey} (hkey : key ∈ pageKeys) {v : Viewer} {a : NxU64}
    (ha : pageSize.toNat ∣ a.toNat) (hv : v.block = a.toNat) :
    ∃ v', Drives m 1 [key] v v' ∧ v'.block = (turnTo lib a key).toNat ∧ v'.width = v.width ∧
      v'.memory = v.memory := by
  have hturned : ∀ o, (v.turn o).width = v.width ∧ (v.turn o).memory = v.memory := by
    rintro (_ | q) <;> exact ⟨rfl, rfl⟩
  have hload : ∀ o rest, some (({ v with keys := rest } : Viewer).turn o) =
      some { v.turn o with keys := rest } := by
    rintro (_ | q) rest <;> rfl
  rcases List.mem_cons.1 hkey with rfl | hkey
  · refine ⟨v.turn (above m.blocks v.block), ?_, ?_, hturned _⟩
    · exact drives_command (by decide) rfl fun rest => hload _ rest
    · exact turn_above hblocks (nextPage_of_page pageSize_powTwo ha) hv
  · obtain rfl := List.mem_singleton.1 hkey
    refine ⟨v.turn (below m.blocks v.block), ?_, ?_, hturned _⟩
    · exact drives_command (by decide) rfl fun rest => hload _ rest
    · exact turn_below hblocks (previousPage_of_page pageSize_powTwo ha) hv

/-- Page keys turn page after page. -/
theorem drives_pageKeys (ks : List EfiInputKey) (hks : ∀ key ∈ ks, key ∈ pageKeys) {v : Viewer}
    {a : NxU64} (ha : pageSize.toNat ∣ a.toNat) (hv : v.block = a.toNat) :
    ∃ v', Drives m ks.length ks v v' ∧ v'.block = (ks.foldl (turnTo lib) a).toNat ∧
      v'.width = v.width ∧ v'.memory = v.memory := by
  induction ks generalizing v a with
  | nil => exact ⟨v, Refine.Drives.refl v, hv, rfl, rfl⟩
  | cons key ks ih =>
    obtain ⟨hkey, hks⟩ := List.forall_mem_cons.1 hks
    obtain ⟨v₁, hfirst, hblock, hwidth, hmemory⟩ := drives_pageKey hblocks hkey ha hv
    have ha₁ : pageSize.toNat ∣ (turnTo lib a key).toNat := by
      unfold turnTo
      split_ifs
      · exact (getNext_stepsUp lib pageSize_powTwo).inv a ha
      · exact (getPrevious_stepsDown lib pageSize_powTwo).inv a ha
    obtain ⟨v₂, hrest, hblock₂, hwidth₂, hmemory₂⟩ := ih hks ha₁ hblock
    refine ⟨v₂, ?_, hblock₂, hwidth₂.trans hwidth, hmemory₂.trans hmemory⟩
    rw [List.length_cons, Nat.add_comm]
    exact hfirst.trans hrest

end

/-- **The page keys go where NexusMemLib goes.**  Wherever a run over the UEFI adapters
    awaits a key, if NexusMemLib has at most 128 descriptors, which start at a
    multiple of 4 KiB and have fewer than `2 ^ 52` pages, then page keys, however
    many, take PageMem to the page that `GetNextValidPageAddress` and
    `GetPreviousValidPageAddress` of NexusMemLib lead to, one call for each key,
    and leave the width and physical memory alone. -/
theorem page_keys_follow_library (fw : Firmware) (hpos : Positional fw.strHexToUint64)
    (hempty : fw.strHexToUint64 [] = 0) (n : ℕ) (s₀ s : PageMemPageState) (w₀ w : UefiWorld)
    (hvisit : runVisits (uefiAdapters fw) n s₀ w₀ = some (s, w))
    (hlen : w.memLib.descriptors.length ≤ maxDescriptors)
    (hdescs : ∀ desc ∈ w.memLib.descriptors,
      4096 ∣ desc.physicalStart.toNat ∧ desc.numberOfPages.toNat < 2 ^ 52)
    (ks : List EfiInputKey) (hks : ∀ key ∈ ks, key ∈ pageKeys) (rest : List EfiInputKey) :
    ∃ s' w', Prog.visits (redrawIfNeeded (uefiAdapters fw)) (serveKey (uefiAdapters fw))
        ks.length s { w with keys := ks ++ rest } = some (s', w') ∧
      s'.cursorState.address = ks.foldl (turnTo w.memLib) s.cursorState.address ∧
      s'.cursorState.width = s.cursorState.width ∧ w'.keys = rest ∧ w'.memory = w.memory := by
  obtain ⟨hcopied, hmap⟩ := visited_copied hvisit
  obtain ⟨-, hviewing⟩ := visited_viewing hvisit
  have hal : MapAligned s.addressMap := by
    rw [hmap]
    exact hcopied.mapAligned fun desc hmem => (hdescs desc hmem).1
  have hblocks : ∀ n, n ∈ (viewed fw s.addressMap w.memLib).blocks ↔
      libPages w.memLib pageSize n := by
    intro n
    show (∃ q, Block s.addressMap q ∧ q.toNat = n) ↔ ∃ q, LibPage w.memLib pageSize q ∧ q.toNat = n
    rw [hmap]
    exact exists_congr fun q => and_congr_left fun _ =>
      hcopied.block_iff hlen fun desc hmem => (hdescs desc hmem).2
  obtain ⟨v, hdrives, hblock, hwidth, hmemory⟩ := drives_pageKeys hblocks ks hks
    (v := view s w) hviewing.drawable.address rfl
  obtain ⟨s', w', hvisits, hview⟩ := runVisits_drives hpos hempty hvisit hal hdrives rest
  refine ⟨s', w', hvisits, BitVec.eq_of_toNat_eq ?_, BitVec.eq_of_toNat_eq ?_,
    congrArg Viewer.keys hview, (congrArg Viewer.memory hview).trans hmemory⟩
  · exact (congrArg Viewer.block hview).trans hblock
  · exact (congrArg Viewer.width hview).trans hwidth

/-- Two pages on and one back, from the first key of a run. -/
theorem page_keys_follow_library_back :
    ∃ s w, runVisits (uefiAdapters codecFirmware) 0 enterState
        (.boot (fun _ => 0xAA) viewerKeys) = some (s, w) ∧
      ∃ s' w', Prog.visits (redrawIfNeeded (uefiAdapters codecFirmware))
          (serveKey (uefiAdapters codecFirmware)) 3 s
          { w with keys := [nextKey, nextKey, previousKey] } = some (s', w') ∧
        s'.cursorState.address =
          [nextKey, nextKey, previousKey].foldl (turnTo w.memLib) s.cursorState.address := by
  obtain ⟨s, w, hfirst, hdescs, -⟩ := viewerKeys_first
  obtain ⟨hcopied, hmap⟩ := visited_copied hfirst
  -- the library has the one descriptor that the page state has
  have hcore : (w.memLib.descriptors.take maxDescriptors).map toCore =
      [⟨.conventional, 0x1000, 1, 0, 7⟩] := by
    rw [hmap] at hdescs
    rw [← hcopied]
    exact Option.some.inj hdescs
  have hlen : w.memLib.descriptors.length = 1 := by
    have h := congrArg List.length hcore
    rw [List.length_map, List.length_take, maxDescriptors] at h
    simp only [List.length_cons, List.length_nil] at h
    omega
  refine ⟨s, w, hfirst, ?_⟩
  obtain ⟨s', w', hvisits, haddress, -⟩ := page_keys_follow_library codecFirmware
    codecFirmware_positional rfl 0 enterState s _ w hfirst (by rw [hlen]; decide) (by
      intro desc hmem
      rw [← List.take_of_length_le (show w.memLib.descriptors.length ≤ maxDescriptors by
        rw [hlen]; decide)] at hmem
      have hone := List.mem_map_of_mem (f := toCore) hmem
      rw [hcore, List.mem_singleton] at hone
      have hstart : desc.physicalStart = 0x1000 := congrArg NxMemoryDescriptor.physicalStart hone
      have hpages : desc.numberOfPages = 1 := congrArg NxMemoryDescriptor.numberOfPages hone
      rw [hstart, hpages]
      decide) [nextKey, nextKey, previousKey] (by decide) []
  exact ⟨s', w', hvisits, haddress⟩

end UefiNexus
