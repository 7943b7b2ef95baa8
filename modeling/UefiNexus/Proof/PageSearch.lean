/-
  The page searches, for any map and any page size.

  `HoldsRange desc q n`: the `n` bytes at `q` lie in the extent of a browsable
  descriptor, computed without wrap-around; the valid ranges are those a
  descriptor holds (`isRangeValid_iff_holdsRange`).  The searches compute the
  extents with wrap-around.  Their candidate for a descriptor is the nearest page
  it holds if the descriptor starts at least two pages below the end of the
  address space.  Above that, rounding its start up gives the last page, or wraps
  around to zero.
-/
import Mathlib.Tactic.SplitIfs
import UefiNexus.Base
import UefiNexus.Core.AddressMap
import UefiNexus.Lib.Align
import UefiNexus.Lib.Search

namespace UefiNexus

open Align (PowTwo)

/-! ## Ranges -/

/-- The descriptor is browsable and holds the `n` bytes at `q`. -/
def HoldsRange (desc : NxMemoryDescriptor) (q n : ℕ) : Prop :=
  isDescriptorValid desc = true ∧ desc.physicalStart.toNat ≤ q ∧
    q + n ≤ desc.physicalStart.toNat + (desc.numberOfPages <<< 12).toNat ∧
    desc.physicalStart.toNat + (desc.numberOfPages <<< 12).toNat < 2 ^ 64

/-- The descriptor is browsable and not empty. -/
def Usable (desc : NxMemoryDescriptor) : Prop :=
  isDescriptorValid desc = true ∧ desc.numberOfPages ≠ 0

/-- The extent of the descriptor reaches the end of the address space. -/
def Overflows (desc : NxMemoryDescriptor) : Prop :=
  2 ^ 64 ≤ desc.physicalStart.toNat + (desc.numberOfPages <<< 12).toNat

/-- The end of the descriptor as the searches compute it, with wrap-around. -/
def wrappedEnd (desc : NxMemoryDescriptor) : ℕ :=
  (desc.physicalStart + desc.numberOfPages <<< 12).toNat

/-- The searches find no room for the first page of the descriptor. -/
abbrev Skips (p : NxU64) (desc : NxMemoryDescriptor) : Prop :=
  desc.physicalStart + desc.numberOfPages <<< 12 < p ∨
    alignUp desc.physicalStart p + p > desc.physicalStart + desc.numberOfPages <<< 12

/-- The valid pages of the map: the multiples of the page size whose range is
    valid. -/
def Page (map : PageMemAddressMap) (pageSize q : NxU64) : Prop :=
  pageSize.toNat ∣ q.toNat ∧ pageCoreIsRangeValid map q pageSize = true

section
variable {desc : NxMemoryDescriptor}

theorem wrappedEnd_eq (desc : NxMemoryDescriptor) :
    wrappedEnd desc =
      (desc.physicalStart.toNat + (desc.numberOfPages <<< 12).toNat) % 2 ^ 64 := by
  rw [wrappedEnd, BitVec.toNat_add]

theorem wrappedEnd_of_not_overflows (h : ¬ Overflows desc) :
    wrappedEnd desc = desc.physicalStart.toNat + (desc.numberOfPages <<< 12).toNat := by
  rw [wrappedEnd_eq, Nat.mod_eq_of_lt (Nat.lt_of_not_le h)]

theorem wrappedEnd_of_overflows (h : Overflows desc) :
    wrappedEnd desc < desc.physicalStart.toNat := by
  have hsize := (desc.numberOfPages <<< 12).isLt
  have hstart := desc.physicalStart.isLt
  simp only [Overflows] at h
  rw [wrappedEnd_eq, Nat.mod_eq_sub_mod h, Nat.mod_eq_of_lt (by omega)]
  omega

theorem HoldsRange.lt {q n : ℕ} (h : HoldsRange desc q n) : q + n < 2 ^ 64 := by
  obtain ⟨-, -, h2, h3⟩ := h
  exact Nat.lt_of_le_of_lt h2 h3

theorem HoldsRange.usable {q n : ℕ} (h : HoldsRange desc q n) (hn : 0 < n) : Usable desc := by
  obtain ⟨hv, h1, h2, -⟩ := h
  refine ⟨hv, fun hpages => ?_⟩
  rw [hpages] at h2
  have hzero : ((0 : NxU64) <<< 12).toNat = 0 := rfl
  omega

/-- The end of a descriptor, where the loops do not skip it. -/
theorem coreEnd_eq_some {e : NxU64} :
    descriptorEnd desc = some e ↔
      desc.physicalStart.toNat + (desc.numberOfPages <<< 12).toNat < 2 ^ 64 ∧
      e.toNat = desc.physicalStart.toNat + (desc.numberOfPages <<< 12).toNat := by
  rw [descriptorEnd]
  by_cases hpages : desc.numberOfPages > 0
  · rw [if_pos hpages]
    by_cases hover : desc.numberOfPages <<< 12 > 0 ∧
        desc.physicalStart > maxUint64 - desc.numberOfPages <<< 12
    · simp only [if_pos hover]
      simp only [maxUint64] at hover
      refine iff_of_false (by simp) fun h => ?_
      bv_omega
    · simp only [if_neg hover, Option.some_inj]
      simp only [maxUint64] at hover
      constructor
      · rintro rfl; bv_omega
      · rintro ⟨h, he⟩; bv_omega
  · have hzero : (desc.numberOfPages <<< 12).toNat = 0 := by
      have : desc.numberOfPages = 0 := by bv_omega
      rw [this]; rfl
    rw [if_neg hpages, Option.some_inj, hzero]
    constructor
    · rintro rfl; exact ⟨desc.physicalStart.isLt, rfl⟩
    · rintro ⟨-, he⟩; exact (BitVec.eq_of_toNat_eq he).symm

/-- Where the loops test a descriptor, they test that it holds the range. -/
theorem test_iff_holdsRange {q e : NxU64} {n : ℕ} (he : e.toNat = q.toNat + n) :
    (isDescriptorValid desc &&
      match descriptorEnd desc with
      | none => false
      | some descEnd => q ≥ desc.physicalStart && e ≤ descEnd) = true ↔
      HoldsRange desc q.toNat n := by
  rw [Bool.and_eq_true, HoldsRange]
  refine and_congr_right fun _ => ?_
  rcases hd : descriptorEnd desc with _ | descEnd
  · refine iff_of_false (by simp) fun h => ?_
    have hend : descriptorEnd desc = some (desc.physicalStart + desc.numberOfPages <<< 12) :=
      coreEnd_eq_some.2 ⟨h.2.2, by bv_omega⟩
    rw [hd] at hend; simp at hend
  · obtain ⟨hlt, hend⟩ := coreEnd_eq_some.1 hd
    simp only [ge_iff_le, Bool.and_eq_true, decide_eq_true_eq, BitVec.le_def, he, hend]
    exact ⟨fun h => ⟨h.1, h.2, hlt⟩, fun h => ⟨h.1, h.2.1⟩⟩

end

section
variable {map : PageMemAddressMap} {ds : List NxMemoryDescriptor}

/-- **The valid ranges** are those a descriptor holds. -/
theorem isRangeValid_iff_holdsRange (hmap : map.descriptors = some ds) {q n : NxU64}
    (hn : n ≠ 0) :
    pageCoreIsRangeValid map q n = true ↔ ∃ desc ∈ ds, HoldsRange desc q.toNat n.toNat := by
  simp only [pageCoreIsRangeValid, hmap]
  rw [if_neg hn]
  by_cases hq : q > maxUint64 - n
  · rw [if_pos hq]
    refine iff_of_false (by simp) ?_
    rintro ⟨desc, -, h⟩
    have := h.lt
    simp only [maxUint64] at hq
    bv_omega
  · rw [if_neg hq, List.any_eq_true]
    have hend : (q + n).toNat = q.toNat + n.toNat := by
      simp only [maxUint64] at hq
      bv_omega
    exact exists_congr fun desc => and_congr_right fun _ => test_iff_holdsRange hend

variable {p q : NxU64} (hp : PowTwo p)
include hp

theorem page_iff (hmap : map.descriptors = some ds) :
    Page map p q ↔ p.toNat ∣ q.toNat ∧ ∃ desc ∈ ds, HoldsRange desc q.toNat p.toNat :=
  and_congr_right fun _ => isRangeValid_iff_holdsRange hmap hp.ne_zero

theorem Page.lt (hmap : map.descriptors = some ds) (h : Page map p q) :
    q.toNat + p.toNat < 2 ^ 64 := by
  obtain ⟨-, desc, -, hholds⟩ := (page_iff hp hmap).1 h
  exact hholds.lt

/-- The fast path of the searches accepts the valid pages. -/
theorem isPageValid_iff_holdsRange (hmap : map.descriptors = some ds) (hdvd : p.toNat ∣ q.toNat)
    (hlast : q.toNat + p.toNat < 2 ^ 64) :
    isPageValid map q p = true ↔ ∃ desc ∈ ds, HoldsRange desc q.toNat p.toNat := by
  have hend : (q + p).toNat = q.toNat + p.toNat := by
    rw [BitVec.toNat_add, Nat.mod_eq_of_lt hlast]
  simp only [isPageValid, hmap, Align.and_not_mask_of_dvd hp hdvd]
  rw [if_neg hp.ne_zero, List.any_eq_true]
  refine exists_congr fun desc => and_congr_right fun _ => ?_
  rw [← test_iff_holdsRange hend]
  by_cases hpages : desc.numberOfPages = 0
  · simp only [hpages, ne_eq, not_true_eq_false, decide_false, Bool.and_false, Bool.false_and,
      Bool.false_eq_true, false_iff]
    rw [test_iff_holdsRange hend]
    exact fun h => (h.usable hp.pos).2 hpages
  · have hne : decide (desc.numberOfPages ≠ 0) = true := decide_eq_true hpages
    rewrite [hne, Bool.and_true]
    exact Iff.rfl

/-- At the last page of the address space the end of the page wraps around, and
    the fast path accepts the page if any descriptor starts below it. -/
theorem isPageValid_last (hmap : map.descriptors = some ds) (hlast : q.toNat + p.toNat = 2 ^ 64) :
    isPageValid map q p = true ↔
      ∃ desc ∈ ds, Usable desc ∧ ¬ Overflows desc ∧ desc.physicalStart ≤ q := by
  have hdvd : p.toNat ∣ q.toNat := by
    have := Nat.dvd_sub hp.dvd_two_pow (dvd_refl p.toNat)
    rwa [← hlast, Nat.add_sub_cancel] at this
  have hend : q + p = 0 := by
    apply BitVec.eq_of_toNat_eq
    rw [BitVec.toNat_add, hlast]
    rfl
  simp only [isPageValid, hmap, Align.and_not_mask_of_dvd hp hdvd, hend]
  rw [if_neg hp.ne_zero, List.any_eq_true]
  refine exists_congr fun desc => and_congr_right fun _ => ?_
  rw [Bool.and_eq_true, Bool.and_eq_true, decide_eq_true_eq, ← Usable]
  refine and_congr_right fun _ => ?_
  rcases hd : descriptorEnd desc with _ | descEnd
  · refine iff_of_false (by simp) fun h => ?_
    have hsome : descriptorEnd desc = some (desc.physicalStart + desc.numberOfPages <<< 12) :=
      coreEnd_eq_some.2 ⟨Nat.lt_of_not_le h.1, wrappedEnd_of_not_overflows h.1⟩
    rw [hd] at hsome
    cases hsome
  · have hlive := (coreEnd_eq_some.1 hd).1
    simp only [ge_iff_le, Bool.and_eq_true, decide_eq_true_eq]
    exact ⟨fun h => ⟨Nat.not_le.2 hlive, h.1⟩, fun h => ⟨h.2, BitVec.le_def.2 (Nat.zero_le _)⟩⟩

end

/-! ## Rounding -/

section
variable {p x : NxU64} (hp : PowTwo p)
include hp

theorem alignUp_dvd (x : NxU64) : p.toNat ∣ (alignUp x p).toNat := by
  rw [alignUp, if_neg hp.ne_zero]
  exact Align.dvd_and_not_mask hp

theorem alignUp_spec (h : x.toNat + p.toNat ≤ 2 ^ 64) :
    p.toNat ∣ (alignUp x p).toNat ∧ x.toNat ≤ (alignUp x p).toNat ∧
      (alignUp x p).toNat < x.toNat + p.toNat := by
  rw [alignUp, if_neg hp.ne_zero]
  exact Align.roundUp_spec hp h

theorem alignUp_eq_zero (h : 2 ^ 64 < x.toNat + p.toNat) : alignUp x p = 0 := by
  rw [alignUp, if_neg hp.ne_zero]
  exact Align.roundUp_eq_zero hp h

theorem add_le_of_dvd (h : p.toNat ∣ x.toNat) : x.toNat + p.toNat ≤ 2 ^ 64 :=
  Align.add_le_of_lt h hp.dvd_two_pow x.isLt

theorem alignUp_of_dvd (h : p.toNat ∣ x.toNat) : alignUp x p = x := by
  obtain ⟨hdvd, hle, hlt⟩ := alignUp_spec hp (add_le_of_dvd hp h)
  apply BitVec.eq_of_toNat_eq
  refine Nat.le_antisymm (Nat.not_lt.1 fun hgt => ?_) hle
  have := Align.add_le_of_lt h hdvd hgt
  omega

end

/-! ## Candidates -/

section
variable {desc : NxMemoryDescriptor} {p n : NxU64}

theorem nextPageCandidate_unusable (h : ¬ Usable desc) : nextPageCandidate n p desc = none := by
  rw [nextPageCandidate, if_pos]
  by_cases hv : isDescriptorValid desc = true
  · exact Or.inr (not_not.1 fun hpages => h ⟨hv, hpages⟩)
  · exact Or.inl hv

theorem previousPageCandidate_unusable (h : ¬ Usable desc) :
    previousPageCandidate n p desc = none := by
  rw [previousPageCandidate, if_pos]
  by_cases hv : isDescriptorValid desc = true
  · exact Or.inr (not_not.1 fun hpages => h ⟨hv, hpages⟩)
  · exact Or.inl hv

variable (hp : PowTwo p)
include hp

/-- The first page of a descriptor that starts at least two pages below the end
    of the address space. -/
theorem firstPage_low (hlow : desc.physicalStart.toNat + 2 * p.toNat ≤ 2 ^ 64) :
    p.toNat ∣ (alignUp desc.physicalStart p).toNat ∧
      desc.physicalStart.toNat ≤ (alignUp desc.physicalStart p).toNat ∧
      (alignUp desc.physicalStart p + p).toNat = (alignUp desc.physicalStart p).toNat + p.toNat ∧
      ∀ q, p.toNat ∣ q → desc.physicalStart.toNat ≤ q →
        (alignUp desc.physicalStart p).toNat ≤ q := by
  have hpos := hp.pos
  obtain ⟨hdvd, hle, hlt⟩ := alignUp_spec hp (x := desc.physicalStart) (by omega)
  have htop : p.toNat ∣ 2 ^ 64 - p.toNat := Nat.dvd_sub hp.dvd_two_pow (dvd_refl _)
  have hnext := Align.add_le_of_lt hdvd htop (by omega)
  refine ⟨hdvd, hle, ?_, fun q hq hsq => Nat.not_lt.1 fun hgt => ?_⟩
  · rw [BitVec.toNat_add, Nat.mod_eq_of_lt (by omega)]
  · have := Align.add_le_of_lt hq hdvd hgt
    omega

/-- Where its extent reaches the end of the address space, it is skipped. -/
theorem skips_low (hlow : desc.physicalStart.toNat + 2 * p.toNat ≤ 2 ^ 64)
    (hover : Overflows desc) :
    alignUp desc.physicalStart p + p > desc.physicalStart + desc.numberOfPages <<< 12 := by
  obtain ⟨-, hle, hend, -⟩ := firstPage_low hp hlow
  have hwrap := wrappedEnd_of_overflows hover
  rw [gt_iff_lt, BitVec.lt_def, hend]
  rw [wrappedEnd] at hwrap
  omega

/-- A low descriptor is skipped exactly if it holds no page. -/
theorem holdsRange_of_not_skip (hlow : desc.physicalStart.toNat + 2 * p.toNat ≤ 2 ^ 64)
    (hu : Usable desc) (hskip : ¬ Skips p desc) :
    HoldsRange desc (alignUp desc.physicalStart p).toNat p.toNat := by
  obtain ⟨-, hle, hend, -⟩ := firstPage_low hp hlow
  have hlive : ¬ Overflows desc := fun hover => hskip (Or.inr (skips_low hp hlow hover))
  have hwrap := wrappedEnd_of_not_overflows hlive
  have hroom := not_or.1 hskip |>.2
  rw [gt_iff_lt, BitVec.lt_def, hend, ← wrappedEnd, hwrap, Nat.not_lt] at hroom
  exact ⟨hu.1, hle, hroom, Nat.lt_of_not_le hlive⟩

theorem not_holdsRange_of_skip (hlow : desc.physicalStart.toNat + 2 * p.toNat ≤ 2 ^ 64)
    (hskip : Skips p desc) {q : ℕ} (hq : p.toNat ∣ q) : ¬ HoldsRange desc q p.toNat := by
  obtain ⟨-, -, hend, hleast⟩ := firstPage_low hp hlow
  rintro ⟨-, h1, h2, h3⟩
  have hwrap := wrappedEnd_of_not_overflows (Nat.not_le.2 h3)
  have hfirst := hleast q hq h1
  rw [Skips, gt_iff_lt, BitVec.lt_def, BitVec.lt_def, hend, ← wrappedEnd, hwrap] at hskip
  omega

/-- **The candidate of a low descriptor** in the search upwards is the least page
    from `n` on that it holds. -/
theorem nextPageCandidate_low (hlow : desc.physicalStart.toNat + 2 * p.toNat ≤ 2 ^ 64)
    (hn : p.toNat ∣ n.toNat) (hlast : n.toNat + p.toNat < 2 ^ 64) :
    (nextPageCandidate n p desc = none ∧
      ∀ q, HoldsRange desc q p.toNat → p.toNat ∣ q → ¬ n.toNat ≤ q) ∨
    ∃ c, nextPageCandidate n p desc = some c ∧ HoldsRange desc c.toNat p.toNat ∧
      p.toNat ∣ c.toNat ∧ n.toNat ≤ c.toNat ∧
      ∀ q, HoldsRange desc q p.toNat → p.toNat ∣ q → n.toNat ≤ q → c.toNat ≤ q := by
  by_cases hu : Usable desc
  swap
  · exact Or.inl ⟨nextPageCandidate_unusable hu, fun q hq => absurd (hq.usable hp.pos) hu⟩
  obtain ⟨hdvd, -, -, hleast⟩ := firstPage_low hp hlow
  rw [nextPageCandidate, if_neg (by rw [not_or, not_not]; exact hu)]
  simp only [alignUp_of_dvd hp hn]
  by_cases hskip : Skips p desc
  · rw [if_pos hskip]
    exact Or.inl ⟨rfl, fun q hq hqdvd => absurd hq (not_holdsRange_of_skip hp hlow hskip hqdvd)⟩
  rw [if_neg hskip]
  have hfirst := holdsRange_of_not_skip hp hlow hu hskip
  by_cases hbelow : n ≤ alignUp desc.physicalStart p
  · rw [if_pos hbelow]
    exact Or.inr ⟨_, rfl, hfirst, hdvd, hbelow, fun q hq hqdvd _ => hleast q hqdvd hq.2.1⟩
  rw [if_neg hbelow]
  rw [BitVec.le_def] at hbelow
  obtain ⟨-, hle, hroom, hlive⟩ := hfirst
  have hwrap := wrappedEnd_of_not_overflows (Nat.not_le.2 hlive)
  have hnext : (n + p).toNat = n.toNat + p.toNat := by
    rw [BitVec.toNat_add, Nat.mod_eq_of_lt hlast]
  by_cases hfits : n.toNat + p.toNat ≤ wrappedEnd desc
  · have hlt : n < desc.physicalStart + desc.numberOfPages <<< 12 := by
      have hpos := hp.pos
      rw [BitVec.lt_def, ← wrappedEnd]
      omega
    have hfit : ¬ n + p > desc.physicalStart + desc.numberOfPages <<< 12 := by
      rw [gt_iff_lt, BitVec.lt_def, hnext, ← wrappedEnd]
      omega
    rw [if_pos hlt, if_neg hfit]
    refine Or.inr ⟨n, rfl, ⟨hu.1, by omega, by omega, hlive⟩, hn, Nat.le_refl _, fun q _ _ h => h⟩
  · have hnone : (if n < desc.physicalStart + desc.numberOfPages <<< 12 then
        if n + p > desc.physicalStart + desc.numberOfPages <<< 12 then none else some n
        else none) = none := by
      by_cases hlt : n < desc.physicalStart + desc.numberOfPages <<< 12
      · rw [if_pos hlt, if_pos]
        rw [gt_iff_lt, BitVec.lt_def, hnext, ← wrappedEnd]
        omega
      · rw [if_neg hlt]
    refine Or.inl ⟨hnone, fun q hq _ hnq => ?_⟩
    obtain ⟨-, -, h2, -⟩ := hq
    omega

/-- It is none where the extent reaches the end of the address space. -/
theorem nextPageCandidate_overflows (hlow : desc.physicalStart.toNat + 2 * p.toNat ≤ 2 ^ 64)
    (hover : Overflows desc) : nextPageCandidate n p desc = none := by
  by_cases hu : Usable desc
  · rw [nextPageCandidate, if_neg (by rw [not_or, not_not]; exact hu)]
    exact if_pos (Or.inr (skips_low hp hlow hover))
  · exact nextPageCandidate_unusable hu

/-- The start of the descriptor rounds up to the last page of the address space,
    and its end as computed is not in the first page. -/
def RoundsToLast (p : NxU64) (desc : NxMemoryDescriptor) : Prop :=
  Usable desc ∧ 2 ^ 64 < desc.physicalStart.toNat + 2 * p.toNat ∧
    desc.physicalStart.toNat + p.toNat ≤ 2 ^ 64 ∧ p.toNat ≤ wrappedEnd desc

/-- The start of the descriptor is in the last page, so rounding it up wraps
    around, and its end as computed is not in the first page. -/
def RoundsToZero (p : NxU64) (desc : NxMemoryDescriptor) : Prop :=
  Usable desc ∧ 2 ^ 64 < desc.physicalStart.toNat + p.toNat ∧ p.toNat ≤ wrappedEnd desc

/-- The last page a descriptor rounds to. -/
theorem firstPage_last (hfrom : 2 ^ 64 < desc.physicalStart.toNat + 2 * p.toNat)
    (hto : desc.physicalStart.toNat + p.toNat ≤ 2 ^ 64) :
    (alignUp desc.physicalStart p).toNat + p.toNat = 2 ^ 64 ∧
      alignUp desc.physicalStart p + p = 0 := by
  obtain ⟨hdvd, hle, -⟩ := alignUp_spec hp hto
  have hend : (alignUp desc.physicalStart p).toNat + p.toNat = 2 ^ 64 := by
    refine Nat.le_antisymm (add_le_of_dvd hp hdvd) (Nat.not_lt.1 fun hlt => ?_)
    have := Align.add_le_of_lt (Nat.dvd_add hdvd (dvd_refl p.toNat)) hp.dvd_two_pow hlt
    omega
  refine ⟨hend, BitVec.eq_of_toNat_eq ?_⟩
  rw [BitVec.toNat_add, hend]
  rfl

/-- **A descriptor that rounds to the last page** has it as its candidate. -/
theorem nextPageCandidate_last (hn : p.toNat ∣ n.toNat)
    (hfrom : 2 ^ 64 < desc.physicalStart.toNat + 2 * p.toNat)
    (hto : desc.physicalStart.toNat + p.toNat ≤ 2 ^ 64) :
    (RoundsToLast p desc ∧ ∃ c, nextPageCandidate n p desc = some c ∧
      c.toNat + p.toNat = 2 ^ 64) ∨
    (¬ RoundsToLast p desc ∧ nextPageCandidate n p desc = none) := by
  by_cases hu : Usable desc
  swap
  · exact Or.inr ⟨fun h => hu h.1, nextPageCandidate_unusable hu⟩
  obtain ⟨hlast, hzero⟩ := firstPage_last hp hfrom hto
  rw [nextPageCandidate, if_neg (by rw [not_or, not_not]; exact hu)]
  simp only [hzero]
  by_cases hend : p.toNat ≤ wrappedEnd desc
  · have hskip : ¬ (desc.physicalStart + desc.numberOfPages <<< 12 < p ∨
        (0 : NxU64) > desc.physicalStart + desc.numberOfPages <<< 12) := by
      rw [not_or, BitVec.lt_def, gt_iff_lt, BitVec.lt_def, ← wrappedEnd]
      exact ⟨Nat.not_lt.2 hend, Nat.not_lt_zero _⟩
    have hbelow : n ≤ alignUp desc.physicalStart p := by
      have := add_le_of_dvd hp hn
      rw [BitVec.le_def]
      omega
    rw [if_neg hskip, if_pos hbelow]
    exact Or.inl ⟨⟨hu, hfrom, hto, hend⟩, _, rfl, hlast⟩
  · rw [if_pos (Or.inl (BitVec.lt_def.2 (Nat.lt_of_not_le hend)))]
    exact Or.inr ⟨fun h => hend h.2.2.2, rfl⟩

/-- **A descriptor that rounds to zero** has the next page as its candidate, if
    its end as computed is not before the end of that page. -/
theorem nextPageCandidate_zero (hn : p.toNat ∣ n.toNat) (hpos : 0 < n.toNat)
    (hwrap : 2 ^ 64 < desc.physicalStart.toNat + p.toNat) :
    ((RoundsToZero p desc ∧ n.toNat < wrappedEnd desc ∧ (n + p).toNat ≤ wrappedEnd desc) ∧
      nextPageCandidate n p desc = some n) ∨
    (¬ (RoundsToZero p desc ∧ n.toNat < wrappedEnd desc ∧ (n + p).toNat ≤ wrappedEnd desc) ∧
      nextPageCandidate n p desc = none) := by
  by_cases hu : Usable desc
  swap
  · exact Or.inr ⟨fun h => hu h.1.1, nextPageCandidate_unusable hu⟩
  rw [nextPageCandidate, if_neg (by rw [not_or, not_not]; exact hu)]
  simp only [alignUp_eq_zero hp hwrap, alignUp_of_dvd hp hn]
  by_cases hend : p.toNat ≤ wrappedEnd desc
  swap
  · rw [if_pos (Or.inl (BitVec.lt_def.2 (Nat.lt_of_not_le hend)))]
    exact Or.inr ⟨fun h => hend h.1.2.2, rfl⟩
  have hskip : ¬ (desc.physicalStart + desc.numberOfPages <<< 12 < p ∨
      (0 : NxU64) + p > desc.physicalStart + desc.numberOfPages <<< 12) := by
    rw [not_or, show (0 : NxU64) + p = p from BitVec.zero_add p, BitVec.lt_def, gt_iff_lt, BitVec.lt_def, ← wrappedEnd]
    exact ⟨Nat.not_lt.2 hend, Nat.not_lt.2 hend⟩
  have habove : ¬ n ≤ (0 : NxU64) := by
    rw [BitVec.le_def]
    exact Nat.not_le.2 hpos
  rw [if_neg hskip, if_neg habove]
  by_cases hlt : n.toNat < wrappedEnd desc
  swap
  · rw [if_neg (fun h => hlt (BitVec.lt_def.1 h))]
    exact Or.inr ⟨fun h => hlt h.2.1, rfl⟩
  rw [if_pos (BitVec.lt_def.2 hlt)]
  by_cases hfit : (n + p).toNat ≤ wrappedEnd desc
  · rw [if_neg (fun h => absurd hfit (Nat.not_le.2 (BitVec.lt_def.1 h)))]
    exact Or.inl ⟨⟨⟨hu, hwrap, hend⟩, hlt, hfit⟩, rfl⟩
  · rw [if_pos (BitVec.lt_def.2 (Nat.lt_of_not_le hfit))]
    exact Or.inr ⟨fun h => hfit h.2.2, rfl⟩

/-- The candidates of the searches are multiples of the page size, whatever the
    descriptor holds. -/
theorem nextPageCandidate_dvd {c : NxU64} (h : nextPageCandidate n p desc = some c) :
    p.toNat ∣ c.toNat := by
  rw [nextPageCandidate] at h
  dsimp only at h
  split_ifs at h
  · cases h
    exact alignUp_dvd hp _
  · cases h
    exact alignUp_dvd hp _

theorem previousPageCandidate_dvd {current c : NxU64} (hc : p.toNat ∣ current.toNat)
    (hle : p ≤ current) (h : previousPageCandidate current p desc = some c) :
    p.toNat ∣ c.toNat := by
  rw [previousPageCandidate] at h
  dsimp only at h
  split_ifs at h
  · cases h
    exact Align.dvd_and_not_mask hp
  · cases h
    rw [BitVec.toNat_sub_of_le hle]
    exact Nat.dvd_sub hc (dvd_refl p.toNat)

/-- All candidates of the search upwards are pages from the next page on. -/
theorem nextPageCandidate_ge (hn : p.toNat ∣ n.toNat) {c : NxU64}
    (h : nextPageCandidate n p desc = some c) : n ≤ c := by
  rw [nextPageCandidate] at h
  simp only [alignUp_of_dvd hp hn] at h
  split_ifs at h with h₁ h₂ hbelow hlt hfit
  · cases h
    exact hbelow
  · cases h
    exact BitVec.le_refl n

/-- The last page that ends at the end of a descriptor as computed, or before. -/
theorem lastPage_spec (hend : p.toNat ≤ wrappedEnd desc) :
    p.toNat ∣ ((desc.physicalStart + desc.numberOfPages <<< 12 - p) &&& ~~~(p - 1)).toNat ∧
      ((desc.physicalStart + desc.numberOfPages <<< 12 - p) &&& ~~~(p - 1)).toNat ≤
        wrappedEnd desc - p.toNat ∧
      ∀ q, p.toNat ∣ q → q ≤ wrappedEnd desc - p.toNat →
        q ≤ ((desc.physicalStart + desc.numberOfPages <<< 12 - p) &&& ~~~(p - 1)).toNat := by
  have hpos := hp.pos
  have hsub : (desc.physicalStart + desc.numberOfPages <<< 12 - p).toNat =
      wrappedEnd desc - p.toNat := BitVec.toNat_sub_of_le (BitVec.le_def.2 hend)
  have hval := @Align.toNat_and_not_mask _ _
    (desc.physicalStart + desc.numberOfPages <<< 12 - p) hp
  have hdvd := @Align.dvd_and_not_mask _ _
    (desc.physicalStart + desc.numberOfPages <<< 12 - p) hp
  rw [hsub] at hval
  have hmod := Nat.mod_lt (wrappedEnd desc - p.toNat) hpos
  refine ⟨hdvd, by omega, fun q hq hle => Nat.not_lt.1 fun hlt => ?_⟩
  have := Align.add_le_of_lt hdvd hq hlt
  omega

/-- **The candidate of a low descriptor** in the search downwards is the greatest
    page before the current page that it holds. -/
theorem previousPageCandidate_low {current : NxU64}
    (hlow : desc.physicalStart.toNat + 2 * p.toNat ≤ 2 ^ 64) (hc : p.toNat ∣ current.toNat) :
    (previousPageCandidate current p desc = none ∧
      ∀ q, HoldsRange desc q p.toNat → p.toNat ∣ q → ¬ q < current.toNat) ∨
    ∃ c, previousPageCandidate current p desc = some c ∧ HoldsRange desc c.toNat p.toNat ∧
      p.toNat ∣ c.toNat ∧ c.toNat < current.toNat ∧
      ∀ q, HoldsRange desc q p.toNat → p.toNat ∣ q → q < current.toNat → q ≤ c.toNat := by
  have hpos := hp.pos
  by_cases hu : Usable desc
  swap
  · exact Or.inl ⟨previousPageCandidate_unusable hu, fun q hq => absurd (hq.usable hpos) hu⟩
  obtain ⟨hdvd, -, -, hleast⟩ := firstPage_low hp hlow
  rw [previousPageCandidate, if_neg (by rw [not_or, not_not]; exact hu)]
  dsimp only
  by_cases hskip : Skips p desc
  · rw [if_pos hskip]
    exact Or.inl ⟨rfl, fun q hq hqdvd => absurd hq (not_holdsRange_of_skip hp hlow hskip hqdvd)⟩
  rw [if_neg hskip]
  obtain ⟨-, hle, hroom, hlive⟩ := holdsRange_of_not_skip hp hlow hu hskip
  have hwrap := wrappedEnd_of_not_overflows (Nat.not_le.2 hlive)
  have hend : p.toNat ≤ wrappedEnd desc := by omega
  obtain ⟨hldvd, hlle, hlgreatest⟩ := lastPage_spec hp hend
  generalize (desc.physicalStart + desc.numberOfPages <<< 12 - p) &&& ~~~(p - 1) = last at *
  generalize alignUp desc.physicalStart p = first at *
  have hfl := hlgreatest first.toNat hdvd (by omega)
  rw [if_neg (fun h => absurd (BitVec.lt_def.1 h) (Nat.not_lt.2 hfl))]
  by_cases hfirst : current ≤ first
  · rw [if_pos hfirst]
    rw [BitVec.le_def] at hfirst
    refine Or.inl ⟨rfl, fun q hq hqdvd hlt => ?_⟩
    have := hleast q hqdvd hq.2.1
    omega
  rw [if_neg hfirst]
  rw [BitVec.le_def, Nat.not_le] at hfirst
  by_cases habove : current > last
  · rw [if_pos habove]
    refine Or.inr ⟨last, rfl, ⟨hu.1, by omega, by omega, hlive⟩, hldvd, BitVec.lt_def.1 habove, ?_⟩
    rintro q ⟨-, -, h2, -⟩ hqdvd -
    exact hlgreatest q hqdvd (by omega)
  · rw [if_neg habove]
    rw [gt_iff_lt, BitVec.lt_def, Nat.not_lt] at habove
    have hroom' := Align.add_le_of_lt hdvd hc hfirst
    have hprev : (current - p).toNat = current.toNat - p.toNat :=
      BitVec.toNat_sub_of_le (BitVec.le_def.2 (by omega))
    rw [if_neg (by rw [BitVec.lt_def, hprev]; omega)]
    have hprevdvd : p.toNat ∣ current.toNat - p.toNat := Nat.dvd_sub hc (dvd_refl _)
    refine Or.inr ⟨_, rfl, ?_⟩
    rw [hprev]
    refine ⟨⟨hu.1, by omega, by omega, hlive⟩, hprevdvd, by omega, fun q _ hqdvd hlt => ?_⟩
    have := Align.add_le_of_lt hqdvd hc hlt
    omega

/-- A descriptor that rounds to the last page has no candidate below. -/
theorem previousPageCandidate_last {current : NxU64}
    (hfrom : 2 ^ 64 < desc.physicalStart.toNat + 2 * p.toNat)
    (hto : desc.physicalStart.toNat + p.toNat ≤ 2 ^ 64) :
    previousPageCandidate current p desc = none := by
  by_cases hu : Usable desc
  swap
  · exact previousPageCandidate_unusable hu
  obtain ⟨hlast, -⟩ := firstPage_last hp hfrom hto
  rw [previousPageCandidate, if_neg (by rw [not_or, not_not]; exact hu)]
  dsimp only
  by_cases hskip : Skips p desc
  · exact if_pos hskip
  rw [if_neg hskip, if_pos]
  have hend : p.toNat ≤ wrappedEnd desc :=
    Nat.not_lt.1 fun h => hskip (Or.inl (BitVec.lt_def.2 h))
  obtain ⟨-, hle, -⟩ := lastPage_spec hp hend
  have hlt : wrappedEnd desc < 2 ^ 64 := BitVec.isLt _
  rw [BitVec.lt_def]
  omega

/-- The last page that ends at the end of a descriptor as computed, or before;
    the page before the current one if that is lower. -/
def reach (p current : ℕ) (desc : NxMemoryDescriptor) : ℕ :=
  min ((wrappedEnd desc - p) / p * p) (current - p)

/-- **A descriptor that rounds to zero** has a candidate below, whatever it
    holds. -/
theorem previousPageCandidate_zero {current : NxU64} (hdvd : p.toNat ∣ current.toNat)
    (hc : p.toNat ≤ current.toNat) (hwrap : 2 ^ 64 < desc.physicalStart.toNat + p.toNat) :
    (RoundsToZero p desc ∧ ∃ c, previousPageCandidate current p desc = some c ∧
      c.toNat = reach p.toNat current.toNat desc) ∨
    (¬ RoundsToZero p desc ∧ previousPageCandidate current p desc = none) := by
  have hpos := hp.pos
  by_cases hu : Usable desc
  swap
  · exact Or.inr ⟨fun h => hu h.1, previousPageCandidate_unusable hu⟩
  rw [previousPageCandidate, if_neg (by rw [not_or, not_not]; exact hu)]
  simp only [alignUp_eq_zero hp hwrap]
  by_cases hend : p.toNat ≤ wrappedEnd desc
  swap
  · rw [if_pos (Or.inl (BitVec.lt_def.2 (Nat.lt_of_not_le hend)))]
    exact Or.inr ⟨fun h => hend h.2.2, rfl⟩
  have hskip : ¬ (desc.physicalStart + desc.numberOfPages <<< 12 < p ∨
      (0 : NxU64) + p > desc.physicalStart + desc.numberOfPages <<< 12) := by
    rw [not_or, show (0 : NxU64) + p = p from BitVec.zero_add p, BitVec.lt_def, gt_iff_lt,
      BitVec.lt_def, ← wrappedEnd]
    exact ⟨Nat.not_lt.2 hend, Nat.not_lt.2 hend⟩
  have hnot : ∀ x : NxU64, ¬ x < 0 := fun x h => Nat.not_lt_zero _ (BitVec.lt_def.1 h)
  have hcurrent : ¬ current ≤ (0 : NxU64) := by
    intro h
    have h0 : current.toNat ≤ 0 := BitVec.le_def.1 h
    omega
  rw [if_neg hskip, if_neg (hnot _), if_neg hcurrent, if_neg (hnot _)]
  refine Or.inl ⟨⟨hu, hwrap, hend⟩, ?_⟩
  have hlast : ((desc.physicalStart + desc.numberOfPages <<< 12 - p) &&& ~~~(p - 1)).toNat =
      (wrappedEnd desc - p.toNat) / p.toNat * p.toNat := by
    rw [Align.toNat_and_not_mask hp, BitVec.toNat_sub_of_le (BitVec.le_def.2 hend), ← wrappedEnd,
      Nat.div_mul_self_eq_mod_sub_self]
  have hldvd : p.toNat ∣ (wrappedEnd desc - p.toNat) / p.toNat * p.toNat := Nat.dvd_mul_left ..
  by_cases habove :
      current > ((desc.physicalStart + desc.numberOfPages <<< 12 - p) &&& ~~~(p - 1))
  · rw [if_pos habove]
    rw [gt_iff_lt, BitVec.lt_def, hlast] at habove
    have := Align.add_le_of_lt hldvd hdvd habove
    exact ⟨_, rfl, by rw [hlast, reach, Nat.min_eq_left (by omega)]⟩
  · rw [if_neg habove]
    rw [gt_iff_lt, BitVec.lt_def, hlast] at habove
    refine ⟨_, rfl, ?_⟩
    rw [BitVec.toNat_sub_of_le (BitVec.le_def.2 hc), reach, Nat.min_eq_right (by omega)]

/-- The page a descriptor reaches is before the current page. -/
theorem reach_lt {current : ℕ} (hc : p.toNat ≤ current) (desc : NxMemoryDescriptor) :
    reach p.toNat current desc < current := by
  have hpos := hp.pos
  have := Nat.min_le_right ((wrappedEnd desc - p.toNat) / p.toNat * p.toNat) (current - p.toNat)
  rw [reach]
  omega

end

end UefiNexus
