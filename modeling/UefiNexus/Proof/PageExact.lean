/-
  When the page searches are right.

  `NextPage map p current r`: `r` is the least valid page above `current`, or
  `current` itself if there is none; `PreviousPage` likewise downwards.  The search
  upwards is right except at the last but one page of the address space, and
  where a descriptor near the end of the address space gives a candidate it does
  not hold (`next_page_iff`); the search downwards, except where such a
  descriptor reaches above all valid pages, and where page 0 is the answer but not
  the page before (`previous_page_iff`).
-/
import UefiNexus.Proof.PageSearch

namespace UefiNexus

open Align (PowTwo)

variable {ds : List NxMemoryDescriptor} {p current : NxU64}

/-! ## Upwards -/

/-- `r` is the least valid page above `current`, or `current` without one. -/
def NextPage (map : PageMemAddressMap) (p current r : NxU64) : Prop :=
  (Page map p r ∧ current < r ∧ ∀ q, Page map p q → current < q → r ≤ q) ∨
    (∀ q, Page map p q → ¬ current < q) ∧ r = current

/-- Above the last but one page there are no valid pages, and every descriptor
    that could be taken for one is skipped. -/
def SkipsLast (ds : List NxMemoryDescriptor) (p : NxU64) : Prop :=
  ∀ desc ∈ ds, Usable desc → Overflows desc ∧ ¬ RoundsToLast p desc ∧
    ¬ (RoundsToZero p desc ∧ 2 ^ 64 < wrappedEnd desc + p.toNat)

/-- No descriptor gives a page it does not hold, except where a valid page is
    found before it. -/
def FindsHeld (ds : List NxMemoryDescriptor) (p current : NxU64) : Prop :=
  ((∃ desc ∈ ds, RoundsToZero p desc ∧ current.toNat + 2 * p.toNat ≤ wrappedEnd desc) →
    Page ⟨some ds⟩ p (current + p)) ∧
  ((∃ desc ∈ ds, RoundsToLast p desc) → ∃ q, Page ⟨some ds⟩ p q ∧ current < q)

/-- From the last but one page on, a descriptor holds no page. -/
theorem not_holdsRange_high (hp : PowTwo p) {desc : NxMemoryDescriptor}
    (hstart : 2 ^ 64 < desc.physicalStart.toNat + 2 * p.toNat) {q : ℕ} (hq : p.toNat ∣ q) :
    ¬ HoldsRange desc q p.toNat := by
  intro h
  have := Align.add_le_of_lt (Nat.dvd_add hq (dvd_refl p.toNat)) hp.dvd_two_pow h.lt
  obtain ⟨-, h1, -, -⟩ := h
  omega

/-- Where a descriptor starts decides what its candidate is. -/
theorem start_cases (p : NxU64) (desc : NxMemoryDescriptor) :
    desc.physicalStart.toNat + 2 * p.toNat ≤ 2 ^ 64 ∨
    2 ^ 64 < desc.physicalStart.toNat + 2 * p.toNat ∧
      desc.physicalStart.toNat + p.toNat ≤ 2 ^ 64 ∨
    2 ^ 64 < desc.physicalStart.toNat + p.toNat := by
  omega

section
variable (hp : PowTwo p)
include hp

theorem nextPageStep_search {n : NxU64} (hn : p.toNat ∣ n.toNat) (hlt : current < n) :
    Search.IsSearch (fun _ => True) BitVec.toNat (nextPageCandidate n p) current
      (nextPageStep current n p) := by
  have hgt : ∀ x c, nextPageCandidate n p x = some c → c > current := fun x c hc =>
    BitVec.lt_def.2 (Nat.lt_of_lt_of_le (BitVec.lt_def.1 hlt)
      (BitVec.le_def.1 (nextPageCandidate_ge hp hn hc)))
  refine ⟨fun b x h => ?_, fun x c _ hc => ?_, fun b x c _ hb hc => ?_, fun x c _ hc heq => ?_⟩
  · rw [nextPageStep, h]
  · rw [nextPageStep, hc]
    exact if_pos ⟨hgt x c hc, Or.inl rfl⟩
  · rw [nextPageStep, hc]
    simp only [hgt x c hc, hb, false_or, true_and, BitVec.lt_def]
  · have h := hgt x c hc
    rw [heq, gt_iff_lt, BitVec.lt_def] at h
    omega

/-- Before the last page, a candidate is held, or it is the last page, or it is
    the next page. -/
theorem nextCandidate_kinds {n : NxU64} (hn : p.toNat ∣ n.toNat) (hpos : 0 < n.toNat)
    (hlast : n.toNat + p.toNat < 2 ^ 64) (desc : NxMemoryDescriptor) :
    (nextPageCandidate n p desc = none ∧
      ∀ q, HoldsRange desc q p.toNat → p.toNat ∣ q → ¬ n.toNat ≤ q) ∨
    (∃ c, nextPageCandidate n p desc = some c ∧ HoldsRange desc c.toNat p.toNat ∧
      p.toNat ∣ c.toNat ∧ n.toNat ≤ c.toNat ∧
      ∀ q, HoldsRange desc q p.toNat → p.toNat ∣ q → n.toNat ≤ q → c.toNat ≤ q) ∨
    (RoundsToLast p desc ∧ ∃ c, nextPageCandidate n p desc = some c ∧
      c.toNat + p.toNat = 2 ^ 64) ∨
    (RoundsToZero p desc ∧ n.toNat + p.toNat ≤ wrappedEnd desc) ∧
      nextPageCandidate n p desc = some n := by
  have hend : (n + p).toNat = n.toNat + p.toNat := by
    rw [BitVec.toNat_add, Nat.mod_eq_of_lt hlast]
  rcases start_cases p desc with hlow | ⟨hfrom, hto⟩ | hwrap
  · exact (nextPageCandidate_low hp hlow hn hlast).imp_right Or.inl
  · rcases nextPageCandidate_last hp hn hfrom hto with h | ⟨-, h⟩
    · exact Or.inr (Or.inr (Or.inl h))
    · exact Or.inl ⟨h, fun q hq hdvd => absurd hq (not_holdsRange_high hp hfrom hdvd)⟩
  · rcases nextPageCandidate_zero hp hn hpos hwrap with ⟨⟨hz, -, hle⟩, h⟩ | ⟨-, h⟩
    · exact Or.inr (Or.inr (Or.inr ⟨⟨hz, hend ▸ hle⟩, h⟩))
    · exact Or.inl ⟨h, fun q hq hdvd => absurd hq (not_holdsRange_high hp (by omega) hdvd)⟩

/-- A descriptor that holds a page from `n` on has a candidate, at most that page,
    unless one rounds to zero. -/
theorem exists_nextCandidate {n q : NxU64} (hn : p.toNat ∣ n.toNat) (hpos : 0 < n.toNat)
    (hlast : n.toNat + p.toNat < 2 ^ 64)
    (hzero : ¬ ∃ desc ∈ ds, RoundsToZero p desc ∧ n.toNat + p.toNat ≤ wrappedEnd desc)
    (hq : Page ⟨some ds⟩ p q) (hnq : n.toNat ≤ q.toNat) :
    ∃ desc ∈ ds, ∃ c, nextPageCandidate n p desc = some c ∧ c.toNat ≤ q.toNat := by
  obtain ⟨hdvd, desc, hdesc, hholds⟩ := (page_iff hp rfl).1 hq
  rcases nextCandidate_kinds hp hn hpos hlast desc with
    ⟨-, hno⟩ | ⟨c, h, -, -, -, hleast⟩ | ⟨hlast', -⟩ | ⟨⟨hz, hle⟩, -⟩
  · exact absurd hnq (hno _ hholds hdvd)
  · exact ⟨desc, hdesc, c, h, hleast _ hholds hdvd hnq⟩
  · obtain ⟨-, h1, -⟩ := hlast'
    have := Align.add_le_of_lt (Nat.dvd_add hdvd (dvd_refl p.toNat)) hp.dvd_two_pow hholds.lt
    have := hholds.2.1
    omega
  · exact absurd ⟨desc, hdesc, hz, hle⟩ hzero

section
variable {n r : NxU64} (hc : p.toNat ∣ current.toNat) (hn : n.toNat = current.toNat + p.toNat)
  (hfound : Search.Finds BitVec.toNat (nextPageCandidate n p) current ds r)
include hc hn hfound

/-- A search that is right was given no candidate by a descriptor that rounds to
    zero. -/
theorem not_roundsToZero_of_nextPage (hlast : n.toNat + p.toNat < 2 ^ 64)
    (hfast : ¬ Page ⟨some ds⟩ p n) (hnext : NextPage ⟨some ds⟩ p current r) :
    ¬ ∃ desc ∈ ds, RoundsToZero p desc ∧ n.toNat + p.toNat ≤ wrappedEnd desc := by
  have hp0 := hp.pos
  have hndvd : p.toNat ∣ n.toNat := hn ▸ Nat.dvd_add hc (dvd_refl p.toNat)
  rintro ⟨desc, hdesc, hzero, hle⟩
  have hcand : nextPageCandidate n p desc = some n := by
    rcases nextPageCandidate_zero hp hndvd (by omega) hzero.2.1 with ⟨-, h⟩ | ⟨hno, -⟩
    · exact h
    · refine absurd ⟨hzero, by omega, ?_⟩ hno
      rw [BitVec.toNat_add, Nat.mod_eq_of_lt hlast]
      exact hle
  obtain ⟨⟨x, -, hx⟩, hleast⟩ := hfound.of_candidate hdesc hcand
  have hrn : r = n := BitVec.eq_of_toNat_eq <| Nat.le_antisymm (hleast desc hdesc n hcand)
    (BitVec.le_def.1 (nextPageCandidate_ge hp hndvd hx))
  rw [hrn] at hnext
  obtain ⟨hpg, -⟩ | ⟨-, heq⟩ := hnext
  · exact hfast hpg
  · rw [heq] at hn
    omega

/-- A search that is right was given the last page only if a page above is valid. -/
theorem exists_page_of_nextPage (hnext : NextPage ⟨some ds⟩ p current r)
    (hround : ∃ desc ∈ ds, RoundsToLast p desc) : ∃ q, Page ⟨some ds⟩ p q ∧ current < q := by
  have hp0 := hp.pos
  have hndvd : p.toNat ∣ n.toNat := hn ▸ Nat.dvd_add hc (dvd_refl p.toNat)
  obtain ⟨desc, hdesc, hround⟩ := hround
  obtain ⟨hpg, habove, -⟩ | ⟨-, rfl⟩ := hnext
  · exact ⟨r, hpg, habove⟩
  · rcases nextPageCandidate_last hp hndvd hround.2.1 hround.2.2.1 with ⟨-, c, hcand, -⟩ | ⟨hno, -⟩
    · obtain ⟨⟨x, -, hx⟩, -⟩ := hfound.of_candidate hdesc hcand
      have hge := BitVec.le_def.1 (nextPageCandidate_ge hp hndvd hx)
      omega
    · exact absurd hround hno

/-- Without such candidates the search is right. -/
theorem nextPage_of_finds (hlast : n.toNat + p.toNat < 2 ^ 64)
    (hzero : ¬ ∃ desc ∈ ds, RoundsToZero p desc ∧ n.toNat + p.toNat ≤ wrappedEnd desc)
    (hround : (∃ desc ∈ ds, RoundsToLast p desc) → ∃ q, Page ⟨some ds⟩ p q ∧ current < q) :
    NextPage ⟨some ds⟩ p current r := by
  have hp0 := hp.pos
  have hndvd : p.toNat ∣ n.toNat := hn ▸ Nat.dvd_add hc (dvd_refl p.toNat)
  have hkinds := nextCandidate_kinds hp hndvd (by omega) hlast
  by_cases hex : ∃ q, Page ⟨some ds⟩ p q ∧ current < q
  · obtain ⟨q, hq, hcq⟩ := hex
    have hbest : ∀ q, Page ⟨some ds⟩ p q → current < q → ∃ desc ∈ ds, ∃ c,
        nextPageCandidate n p desc = some c ∧ c.toNat ≤ q.toNat := fun q hq hcq =>
      exists_nextCandidate hp hndvd (by omega) hlast hzero hq
        (hn ▸ Align.add_le_of_lt hc hq.1 (BitVec.lt_def.1 hcq))
    obtain ⟨desc, hdesc, c, hcand, -⟩ := hbest q hq hcq
    obtain ⟨⟨x, hx, hrx⟩, hleast⟩ := hfound.of_candidate hdesc hcand
    have hle : ∀ q, Page ⟨some ds⟩ p q → current < q → r ≤ q := by
      intro q hq hcq
      obtain ⟨desc, hdesc, c, h, hcq'⟩ := hbest q hq hcq
      exact BitVec.le_def.2 (Nat.le_trans (hleast desc hdesc c h) hcq')
    have hge := BitVec.le_def.1 (nextPageCandidate_ge hp hndvd hrx)
    refine Or.inl ⟨?_, BitVec.lt_def.2 (by omega), hle⟩
    rcases hkinds x with ⟨h, -⟩ | ⟨c, h, hholds, hdvd, -⟩ | ⟨-, c, h, hend⟩ | ⟨⟨hz, hroom⟩, -⟩
    · rw [h] at hrx
      cases hrx
    · rw [h] at hrx
      cases hrx
      exact (page_iff hp rfl).2 ⟨hdvd, x, hx, hholds⟩
    · rw [h] at hrx
      cases hrx
      have := BitVec.le_def.1 (hle q hq hcq)
      have := Page.lt hp rfl hq
      omega
    · exact absurd ⟨x, hx, hz, hroom⟩ hzero
  · refine Or.inr ⟨fun q hq hcq => hex ⟨q, hq, hcq⟩, ?_⟩
    rcases hfound with ⟨hr, -⟩ | ⟨⟨x, hx, hrx⟩, -⟩
    · exact hr
    rcases hkinds x with ⟨h, -⟩ | ⟨c, h, hholds, hdvd, hle, -⟩ | ⟨hl, -⟩ | ⟨⟨hz, hroom⟩, -⟩
    · rw [h] at hrx
      cases hrx
    · exact absurd ⟨c, (page_iff hp rfl).2 ⟨hdvd, x, hx, hholds⟩, BitVec.lt_def.2 (by omega)⟩ hex
    · exact absurd (hround ⟨x, hx, hl⟩) hex
    · exact absurd ⟨x, hx, hz, hroom⟩ hzero

end

/-- **The search upwards** before the last page. -/
theorem nextSearch_iff {n : NxU64} (hc : p.toNat ∣ current.toNat)
    (hn : n.toNat = current.toNat + p.toNat) (hlast : n.toNat + p.toNat < 2 ^ 64)
    (hfast : ¬ Page ⟨some ds⟩ p n) :
    NextPage ⟨some ds⟩ p current (ds.foldl (nextPageStep current n p) current) ↔
      (¬ ∃ desc ∈ ds, RoundsToZero p desc ∧ n.toNat + p.toNat ≤ wrappedEnd desc) ∧
      ((∃ desc ∈ ds, RoundsToLast p desc) → ∃ q, Page ⟨some ds⟩ p q ∧ current < q) := by
  have hp0 := hp.pos
  have hndvd : p.toNat ∣ n.toNat := hn ▸ Nat.dvd_add hc (dvd_refl p.toNat)
  have hlt : current < n := BitVec.lt_def.2 (by omega)
  have hfound := (nextPageStep_search hp hndvd hlt).foldl_finds ds fun _ _ => trivial
  constructor
  · intro hnext
    exact ⟨not_roundsToZero_of_nextPage hp hc hn hfound hlast hfast hnext,
      exists_page_of_nextPage hp hc hn hfound hnext⟩
  · rintro ⟨hzero, hround⟩
    exact nextPage_of_finds hp hc hn hfound hlast hzero hround

/-- At the last page of the address space, what is not skipped has a candidate
    there. -/
theorem nextCandidate_last_none {n : NxU64} (hn : p.toNat ∣ n.toNat) (hpos : p.toNat ≤ n.toNat)
    (hlast : n.toNat + p.toNat = 2 ^ 64) {desc : NxMemoryDescriptor}
    (hfast : Usable desc → Overflows desc ∨ n < desc.physicalStart) :
    nextPageCandidate n p desc = none ↔
      (Usable desc → Overflows desc ∧ ¬ RoundsToLast p desc ∧
        ¬ (RoundsToZero p desc ∧ 2 ^ 64 < wrappedEnd desc + p.toNat)) := by
  have hp0 := hp.pos
  have hend : (n + p).toNat = 0 := by
    rw [BitVec.toNat_add, hlast]
    rfl
  by_cases hu : Usable desc
  swap
  · exact iff_of_true (nextPageCandidate_unusable hu) fun h => absurd h hu
  rcases start_cases p desc with hlow | ⟨hfrom, hto⟩ | hwrap
  · -- a low descriptor starts before the last page, hence it overflows
    have hover : Overflows desc := (hfast hu).resolve_right fun h => by
      rw [BitVec.lt_def] at h
      omega
    refine iff_of_true (nextPageCandidate_overflows hp hlow hover) fun _ => ⟨hover, ?_, ?_⟩
    · rintro ⟨-, h, -⟩
      omega
    · rintro ⟨⟨-, h, -⟩, -⟩
      omega
  · have hover : Overflows desc := (hfast hu).resolve_right fun h => by
      rw [BitVec.lt_def] at h
      omega
    rcases nextPageCandidate_last hp hn hfrom hto with ⟨hround, c, hc, -⟩ | ⟨hround, hc⟩
    · refine iff_of_false (fun h => ?_) fun h => (h hu).2.1 hround
      rw [hc] at h
      cases h
    · refine iff_of_true hc fun _ => ⟨hover, hround, ?_⟩
      rintro ⟨⟨-, h, -⟩, -⟩
      omega
  · rcases nextPageCandidate_zero hp hn (by omega) hwrap with ⟨⟨hz, hroom, -⟩, hc⟩ | ⟨hno, hc⟩
    · refine iff_of_false (fun h => ?_) fun h => (h hu).2.2 ⟨hz, by omega⟩
      rw [hc] at h
      cases h
    · have hno' : ¬ (RoundsToZero p desc ∧ 2 ^ 64 < wrappedEnd desc + p.toNat) :=
        fun ⟨hz, hroom⟩ => hno ⟨hz, by omega, by omega⟩
      refine iff_of_true hc fun _ => ⟨not_not.1 fun hover => ?_, ?_, hno'⟩
      · -- without an overflow the end is above the start, in the last page
        have hw := wrappedEnd_of_not_overflows hover
        exact hno' ⟨⟨hu, hwrap, by omega⟩, by omega⟩
      · rintro ⟨-, -, h, -⟩
        omega

theorem nextPage_and_not_mask (map : PageMemAddressMap) (address : NxU64) :
    pageCoreGetNextValidPageAddress map address p =
        pageCoreGetNextValidPageAddress map (address &&& ~~~(p - 1)) p ∨
      map.descriptors = none := by
  rcases hmap : map.descriptors with _ | ds
  · exact Or.inr rfl
  · refine Or.inl ?_
    simp only [pageCoreGetNextValidPageAddress, hmap]
    rw [if_neg hp.ne_zero, if_neg hp.ne_zero,
      Align.and_not_mask_of_dvd hp (Align.dvd_and_not_mask hp)]

/-- From the last but one page on, no page above is valid. -/
theorem not_page_above (hc : p.toNat ∣ current.toNat)
    (hhigh : 2 ^ 64 ≤ current.toNat + 2 * p.toNat) {q : NxU64} (hq : Page ⟨some ds⟩ p q) :
    ¬ current < q := by
  intro hcq
  have hle := Align.add_le_of_lt hc hq.1 (BitVec.lt_def.1 hcq)
  have hlt := hq.lt hp rfl
  omega

/-- Before the last page, the page after does not wrap. -/
theorem toNat_pageAfter (hroom : current.toNat + 2 * p.toNat ≤ 2 ^ 64) :
    (current + p).toNat = current.toNat + p.toNat ∧ ¬ current > maxUint64 - p := by
  have hp0 := hp.pos
  refine ⟨by rw [BitVec.toNat_add, Nat.mod_eq_of_lt (by omega)], ?_⟩
  simp only [maxUint64]
  bv_omega

/-- **The next page** at the last page of the address space: none. -/
theorem nextPage_last (hc : p.toNat ∣ current.toNat)
    (hlast : current.toNat + p.toNat = 2 ^ 64) :
    NextPage ⟨some ds⟩ p current (pageCoreGetNextValidPageAddress ⟨some ds⟩ current p) := by
  have hp0 := hp.pos
  have htop : current > maxUint64 - p := by
    simp only [maxUint64]
    bv_omega
  simp only [pageCoreGetNextValidPageAddress, Align.and_not_mask_of_dvd hp hc]
  rw [if_neg hp.ne_zero, if_pos htop]
  exact Or.inr ⟨fun q hq => not_page_above hp hc (by omega) hq, rfl⟩

/-- **The next page** before the last but one. -/
theorem nextPage_low (hc : p.toNat ∣ current.toNat)
    (hlow : current.toNat + 2 * p.toNat < 2 ^ 64) :
    NextPage ⟨some ds⟩ p current (pageCoreGetNextValidPageAddress ⟨some ds⟩ current p) ↔
      FindsHeld ds p current := by
  have hp0 := hp.pos
  obtain ⟨hn, hroom⟩ := toNat_pageAfter hp hlow.le
  have hndvd : p.toNat ∣ (current + p).toNat := hn ▸ Nat.dvd_add hc (dvd_refl p.toNat)
  have hvalid : isPageValid ⟨some ds⟩ (current + p) p = true ↔ Page ⟨some ds⟩ p (current + p) := by
    rw [isPageValid_iff_holdsRange hp rfl hndvd (by omega), page_iff hp rfl]
    exact (and_iff_right hndvd).symm
  simp only [pageCoreGetNextValidPageAddress, Align.and_not_mask_of_dvd hp hc]
  rw [if_neg hp.ne_zero, if_neg hroom]
  by_cases hfast : isPageValid ⟨some ds⟩ (current + p) p = true
  · rw [if_pos hfast]
    have hpage := hvalid.1 hfast
    have hlt : current < current + p := BitVec.lt_def.2 (by omega)
    refine iff_of_true (Or.inl ⟨hpage, hlt, fun q hq hcq => ?_⟩)
      ⟨fun _ => hpage, fun _ => ⟨_, hpage, hlt⟩⟩
    rw [BitVec.le_def, hn]
    exact Align.add_le_of_lt hc hq.1 (BitVec.lt_def.1 hcq)
  · rw [if_neg hfast]
    have hno := fun h => hfast (hvalid.2 h)
    rw [nextSearch_iff hp hc hn (by omega) hno, FindsHeld, hn]
    refine and_congr_left fun _ => ⟨fun h h' => absurd ?_ h, fun h h' => hno (h ?_)⟩
    · obtain ⟨desc, hdesc, hz, hle⟩ := h'
      exact ⟨desc, hdesc, hz, by omega⟩
    · obtain ⟨desc, hdesc, hz, hle⟩ := h'
      exact ⟨desc, hdesc, hz, by omega⟩

/-- Where the fast path accepts the next page, it is the result. -/
theorem nextPage_fast (hc : p.toNat ∣ current.toNat)
    (hroom : current.toNat + 2 * p.toNat ≤ 2 ^ 64)
    (hfast : isPageValid ⟨some ds⟩ (current + p) p = true) :
    pageCoreGetNextValidPageAddress ⟨some ds⟩ current p = current + p := by
  simp only [pageCoreGetNextValidPageAddress, Align.and_not_mask_of_dvd hp hc]
  rw [if_neg hp.ne_zero, if_neg (toNat_pageAfter hp hroom).2, if_pos hfast]

/-- **The next page** at the last but one: none. -/
theorem nextPage_lastButOne (hc : p.toNat ∣ current.toNat)
    (hlast : current.toNat + 2 * p.toNat = 2 ^ 64) :
    NextPage ⟨some ds⟩ p current (pageCoreGetNextValidPageAddress ⟨some ds⟩ current p) ↔
      SkipsLast ds p := by
  have hp0 := hp.pos
  obtain ⟨hn, hroom⟩ := toNat_pageAfter hp hlast.le
  have hndvd : p.toNat ∣ (current + p).toNat := hn ▸ Nat.dvd_add hc (dvd_refl p.toNat)
  have hlt : current < current + p := BitVec.lt_def.2 (by omega)
  -- the last page is never valid
  have hnone : ∀ q, Page ⟨some ds⟩ p q → ¬ current < q :=
    fun q hq => not_page_above hp hc hlast.ge hq
  have hright : ∀ r, NextPage ⟨some ds⟩ p current r ↔ r = current := fun r =>
    ⟨fun h => h.elim (fun h => absurd h.2.1 (hnone r h.1)) And.right, fun h => Or.inr ⟨hnone, h⟩⟩
  simp only [pageCoreGetNextValidPageAddress, Align.and_not_mask_of_dvd hp hc]
  rw [if_neg hp.ne_zero, if_neg hroom, hright]
  by_cases hfast : isPageValid ⟨some ds⟩ (current + p) p = true
  · rw [if_pos hfast]
    obtain ⟨desc, hdesc, hu, hover, -⟩ := (isPageValid_last hp rfl (by omega)).1 hfast
    refine iff_of_false (fun h => ?_) fun h => hover (h desc hdesc hu).1
    rw [h] at hlt
    exact BitVec.lt_irrefl current hlt
  · rw [if_neg hfast]
    have hskip : ∀ desc ∈ ds, Usable desc → Overflows desc ∨ current + p < desc.physicalStart := by
      intro desc hdesc hu
      by_contra hno
      rw [not_or, BitVec.lt_def, Nat.not_lt] at hno
      exact hfast ((isPageValid_last hp rfl (by omega)).2
        ⟨desc, hdesc, hu, hno.1, BitVec.le_def.2 hno.2⟩)
    have hcand := fun desc (hdesc : desc ∈ ds) =>
      nextCandidate_last_none hp hndvd (by omega) (by omega) (hskip desc hdesc)
    have hsearch := (nextPageStep_search hp hndvd hlt).foldl_finds ds fun _ _ => trivial
    constructor
    · intro h desc hdesc
      refine (hcand desc hdesc).1 ?_
      rcases hsearch with ⟨-, hnone⟩ | ⟨⟨x, -, hx⟩, -⟩
      · exact hnone desc hdesc
      · have := BitVec.le_def.1 (nextPageCandidate_ge hp hndvd hx)
        rw [h] at this
        omega
    · intro h
      rcases hsearch with ⟨hr, -⟩ | ⟨⟨x, hx, hrx⟩, -⟩
      · exact hr
      · rw [(hcand x hx).2 (h x hx)] at hrx
        cases hrx

/-- **The next page is the least valid page above**, or the page itself without
    one, except at the last but one page, unless every descriptor is skipped
    there, and before it where a descriptor gives a page it does not hold. -/
theorem next_page_iff (ds : List NxMemoryDescriptor) (address : NxU64) :
    NextPage ⟨some ds⟩ p (address &&& ~~~(p - 1))
        (pageCoreGetNextValidPageAddress ⟨some ds⟩ address p) ↔
      ((address &&& ~~~(p - 1)).toNat + 2 * p.toNat = 2 ^ 64 → SkipsLast ds p) ∧
      ((address &&& ~~~(p - 1)).toNat + 2 * p.toNat < 2 ^ 64 →
        FindsHeld ds p (address &&& ~~~(p - 1))) := by
  have hc : p.toNat ∣ (address &&& ~~~(p - 1)).toNat := Align.dvd_and_not_mask hp
  rw [(nextPage_and_not_mask hp ⟨some ds⟩ address).resolve_right nofun]
  generalize address &&& ~~~(p - 1) = current at hc ⊢
  have hp0 := hp.pos
  have hle := add_le_of_dvd hp hc
  rcases Nat.lt_trichotomy (current.toNat + 2 * p.toNat) (2 ^ 64) with hlow | hlast | hover
  · rw [nextPage_low hp hc hlow]
    exact ⟨fun h => ⟨fun heq => absurd heq hlow.ne, fun _ => h⟩, fun h => h.2 hlow⟩
  · rw [nextPage_lastButOne hp hc hlast]
    exact ⟨fun h => ⟨fun _ => h, fun hlt => absurd hlast hlt.ne⟩, fun h => h.1 hlast⟩
  · have hend : current.toNat + p.toNat = 2 ^ 64 := by
      refine Nat.le_antisymm hle (Nat.not_lt.1 fun hlt => ?_)
      have := Align.add_le_of_lt (Nat.dvd_add hc (dvd_refl p.toNat)) hp.dvd_two_pow hlt
      omega
    exact iff_of_true (nextPage_last hp hc hend)
      ⟨fun heq => absurd heq hover.ne', fun hlt => absurd hlt (Nat.not_lt.2 hover.le)⟩

end

/-- One page of conventional memory at 4 KiB. -/
def onePageMap : PageMemAddressMap := ⟨some [⟨.conventional, 0x1000, 1, 0, 0⟩]⟩

/-- From the last but one page of the address space the search finds the last one. -/
theorem next_page_iff_top :
    ¬ NextPage onePageMap 256 ((0xFFFFFFFFFFFFFE00 : NxU64) &&& ~~~(256 - 1))
      (pageCoreGetNextValidPageAddress onePageMap 0xFFFFFFFFFFFFFE00 256) := by
  rw [onePageMap, next_page_iff ⟨8, rfl⟩]
  intro h
  exact (h.1 (by decide) _ (List.mem_singleton.2 rfl) ⟨rfl, by decide⟩).1.not_gt (by decide)

theorem next_page_top :
    pageCoreGetNextValidPageAddress onePageMap 0xFFFFFFFFFFFFFE00 256 = 0xFFFFFFFFFFFFFF00 ∧
    ¬ NextPage onePageMap 256 ((0xFFFFFFFFFFFFFE00 : NxU64) &&& ~~~(256 - 1))
      (pageCoreGetNextValidPageAddress onePageMap 0xFFFFFFFFFFFFFE00 256) := by
  have hr : pageCoreGetNextValidPageAddress onePageMap 0xFFFFFFFFFFFFFE00 256 =
      0xFFFFFFFFFFFFFF00 := by decide
  refine ⟨hr, ?_⟩
  rw [hr]
  rintro (⟨hpage, -⟩ | ⟨-, heq⟩)
  · exact absurd hpage.2 (by decide)
  · exact absurd heq (by decide)

/-! ## Downwards -/

/-- `r` is the greatest valid page below `current`, or `current` without one. -/
def PreviousPage (map : PageMemAddressMap) (p current r : NxU64) : Prop :=
  (Page map p r ∧ r < current ∧ ∀ q, Page map p q → q < current → q ≤ r) ∨
    (∀ q, Page map p q → ¬ q < current) ∧ r = current

/-- A descriptor that rounds to zero does not reach above all valid pages below. -/
def ReachesHeld (ds : List NxMemoryDescriptor) (p current : NxU64) : Prop :=
  ∀ desc ∈ ds, RoundsToZero p desc → 0 < reach p.toNat current.toNat desc →
    ∃ q, Page ⟨some ds⟩ p q ∧ q < current ∧ reach p.toNat current.toNat desc ≤ q.toNat

/-- Page 0 is the only valid page below. -/
def OnlyPageZero (ds : List NxMemoryDescriptor) (p current : NxU64) : Prop :=
  Page ⟨some ds⟩ p 0 ∧ ∀ q, Page ⟨some ds⟩ p q → q < current → q = 0

theorem previousPage_zero : PreviousPage ⟨some ds⟩ p 0
    (pageCoreGetPreviousValidPageAddress ⟨some ds⟩ 0 p) := by
  rw [show pageCoreGetPreviousValidPageAddress ⟨some ds⟩ 0 p = 0 from if_pos (Or.inr rfl)]
  exact Or.inr ⟨fun q _ hlt => absurd (BitVec.lt_def.1 hlt) (Nat.not_lt_zero _), rfl⟩

section
variable (hp : PowTwo p)
include hp

/-- A candidate of the search downwards is held, or it is what a descriptor that
    rounds to zero reaches. -/
theorem previousCandidate_kinds (hc : p.toNat ∣ current.toNat) (hle : p.toNat ≤ current.toNat)
    (desc : NxMemoryDescriptor) :
    (previousPageCandidate current p desc = none ∧ ¬ RoundsToZero p desc ∧
      ∀ q, HoldsRange desc q p.toNat → p.toNat ∣ q → ¬ q < current.toNat) ∨
    (∃ c, previousPageCandidate current p desc = some c ∧ ¬ RoundsToZero p desc ∧
      HoldsRange desc c.toNat p.toNat ∧ p.toNat ∣ c.toNat ∧ c.toNat < current.toNat ∧
      ∀ q, HoldsRange desc q p.toNat → p.toNat ∣ q → q < current.toNat → q ≤ c.toNat) ∨
    (RoundsToZero p desc ∧ (∀ q, HoldsRange desc q p.toNat → ¬ p.toNat ∣ q) ∧
      ∃ c, previousPageCandidate current p desc = some c ∧
        c.toNat = reach p.toNat current.toNat desc) := by
  have hp0 := hp.pos
  rcases start_cases p desc with hlow | ⟨hfrom, hto⟩ | hwrap
  · have hno : ¬ RoundsToZero p desc := by
      rintro ⟨-, h, -⟩
      omega
    rcases previousPageCandidate_low hp hlow hc with ⟨h, hnone⟩ | ⟨c, h, hheld⟩
    · exact Or.inl ⟨h, hno, hnone⟩
    · exact Or.inr (Or.inl ⟨c, h, hno, hheld⟩)
  · refine Or.inl ⟨previousPageCandidate_last hp hfrom hto, ?_, fun q hq hdvd => ?_⟩
    · rintro ⟨-, h, -⟩
      omega
    · exact absurd hq (not_holdsRange_high hp hfrom hdvd)
  · have hempty : ∀ q, HoldsRange desc q p.toNat → ¬ p.toNat ∣ q := fun q hq hdvd =>
      not_holdsRange_high hp (by omega) hdvd hq
    rcases previousPageCandidate_zero hp hc hle hwrap with ⟨hz, h⟩ | ⟨hz, h⟩
    · exact Or.inr (Or.inr ⟨hz, hempty, h⟩)
    · exact Or.inl ⟨h, hz, fun q hq hdvd => absurd hdvd (hempty q hq)⟩

/-- A candidate is below the current page. -/
theorem previousPageCandidate_lt (hc : p.toNat ∣ current.toNat) (hle : p.toNat ≤ current.toNat)
    {desc : NxMemoryDescriptor} {c : NxU64} (h : previousPageCandidate current p desc = some c) :
    c < current := by
  rcases previousCandidate_kinds hp hc hle desc with
    ⟨hnone, -⟩ | ⟨d, hd, -, -, -, hlt, -⟩ | ⟨-, -, d, hd, hreach⟩
  · rw [hnone] at h
    cases h
  · rw [hd] at h
    cases h
    exact BitVec.lt_def.2 hlt
  · rw [hd] at h
    cases h
    rw [BitVec.lt_def, hreach]
    exact reach_lt hp hle desc

omit hp in
/-- The candidates without page 0: the search takes that for "none yet". -/
theorem candidate_ne_zero_iff {desc : NxMemoryDescriptor} {c : NxU64} :
    (previousPageCandidate current p desc).filter (· ≠ 0) = some c ↔
      previousPageCandidate current p desc = some c ∧ c ≠ 0 := by
  rw [Option.filter_eq_some_iff, decide_eq_true_eq]

/-- The search downwards is one for the greatest candidate. -/
theorem previousPageStep_search (hc : p.toNat ∣ current.toNat) (hle : p.toNat ≤ current.toNat) :
    Search.IsSearch (fun _ => True) (fun c => 2 ^ 64 - c.toNat)
      (fun desc => (previousPageCandidate current p desc).filter (· ≠ 0)) 0
      (previousPageStep current p) := by
  refine ⟨fun b x h => ?_, fun x c _ h => ?_, fun b x c _ hb h => ?_, fun x c _ h => ?_⟩
  · rw [previousPageStep]
    rcases hx : previousPageCandidate current p x with _ | c
    · rfl
    · have hzero : c = 0 := by
        by_contra hne
        rw [candidate_ne_zero_iff.2 ⟨hx, hne⟩] at h
        cases h
      rw [hzero]
      exact if_neg fun h => absurd (BitVec.lt_def.1 h.2) (Nat.not_lt_zero _)
  · obtain ⟨hx, hne⟩ := candidate_ne_zero_iff.1 h
    rw [previousPageStep, hx]
    exact if_pos ⟨previousPageCandidate_lt hp hc hle hx, by bv_omega⟩
  · obtain ⟨hx, hne⟩ := candidate_ne_zero_iff.1 h
    have hkey : c > b ↔ 2 ^ 64 - c.toNat < 2 ^ 64 - b.toNat := by
      rw [gt_iff_lt, BitVec.lt_def]
      omega
    rw [previousPageStep, hx]
    simp only [previousPageCandidate_lt hp hc hle hx, true_and, hkey]
  · exact (candidate_ne_zero_iff.1 h).2

/-- A descriptor that holds a page below has a candidate, from that page on. -/
theorem exists_previousCandidate (hc : p.toNat ∣ current.toNat) (hle : p.toNat ≤ current.toNat)
    {q : NxU64} (hq : Page ⟨some ds⟩ p q) (hlt : q < current) :
    ∃ desc ∈ ds, ∃ c, previousPageCandidate current p desc = some c ∧ q.toNat ≤ c.toNat := by
  obtain ⟨hdvd, desc, hdesc, hholds⟩ := (page_iff hp rfl).1 hq
  rcases previousCandidate_kinds hp hc hle desc with
    ⟨-, -, hno⟩ | ⟨c, h, -, -, -, -, hgreatest⟩ | ⟨-, hno, -⟩
  · exact absurd (BitVec.lt_def.1 hlt) (hno _ hholds hdvd)
  · exact ⟨desc, hdesc, c, h, hgreatest _ hholds hdvd (BitVec.lt_def.1 hlt)⟩
  · exact absurd hdvd (hno _ hholds)

/-- The candidate of a descriptor that rounds to zero. -/
theorem candidate_of_roundsToZero (hc : p.toNat ∣ current.toNat) (hle : p.toNat ≤ current.toNat)
    {desc : NxMemoryDescriptor} (hz : RoundsToZero p desc) :
    ∃ c, previousPageCandidate current p desc = some c ∧
      c.toNat = reach p.toNat current.toNat desc := by
  rcases previousCandidate_kinds hp hc hle desc with ⟨-, hno, -⟩ | ⟨-, -, hno, -⟩ | ⟨-, -, h⟩
  · exact absurd hz hno
  · exact absurd hz hno
  · exact h

/-- Where the search downwards finds nothing, it is right unless page 0 is valid. -/
theorem previousPage_none (hc : p.toNat ∣ current.toNat) (hle : p.toNat ≤ current.toNat)
    (hnone : ∀ desc ∈ ds, (previousPageCandidate current p desc).filter (· ≠ 0) = none) :
    PreviousPage ⟨some ds⟩ p current current ↔
      ReachesHeld ds p current ∧ ¬ OnlyPageZero ds p current := by
  have hzero : (0 : NxU64) < current := BitVec.lt_def.2 (Nat.lt_of_lt_of_le hp.pos hle)
  have hno : ∀ desc ∈ ds, ∀ c, previousPageCandidate current p desc = some c → c = 0 := by
    intro desc hdesc c h
    by_contra hne
    have hcand := hnone desc hdesc
    rw [candidate_ne_zero_iff.2 ⟨h, hne⟩] at hcand
    cases hcand
  have honly : ∀ q, Page ⟨some ds⟩ p q → q < current → q = 0 := by
    intro q hq hlt
    obtain ⟨desc, hdesc, c, h, hqc⟩ := exists_previousCandidate hp hc hle hq hlt
    rw [hno desc hdesc c h] at hqc
    exact BitVec.eq_of_toNat_eq (Nat.le_zero.1 hqc)
  constructor
  · intro hprev
    refine ⟨fun desc hdesc hz hpos => ?_, fun h0 => ?_⟩
    · obtain ⟨c, h, hreach⟩ := candidate_of_roundsToZero hp hc hle hz
      rw [hno desc hdesc c h] at hreach
      exact absurd hreach.symm (Nat.ne_of_gt hpos)
    · rcases hprev with ⟨-, hlt, -⟩ | ⟨hno, -⟩
      · exact BitVec.lt_irrefl current hlt
      · exact hno 0 h0.1 hzero
  · rintro ⟨-, hnot⟩
    refine Or.inr ⟨fun q hq hlt => hnot ⟨?_, honly⟩, rfl⟩
    rw [← honly q hq hlt]
    exact hq

/-- What the search downwards finds is right if it is not what a descriptor that
    rounds to zero reaches above all valid pages. -/
theorem previousPage_some {r : NxU64} (hc : p.toNat ∣ current.toNat)
    (hle : p.toNat ≤ current.toNat) {x : NxMemoryDescriptor} (hx : x ∈ ds)
    (hrx : previousPageCandidate current p x = some r) (hne : r ≠ 0)
    (habove : ∀ desc ∈ ds, ∀ c, previousPageCandidate current p desc = some c →
      c.toNat ≤ r.toNat) :
    PreviousPage ⟨some ds⟩ p current r ↔
      ReachesHeld ds p current ∧ ¬ OnlyPageZero ds p current := by
  have hlt := previousPageCandidate_lt hp hc hle hrx
  constructor
  · intro hprev
    have hpr : Page ⟨some ds⟩ p r := by
      rcases hprev with ⟨hpr, -⟩ | ⟨-, heq⟩
      · exact hpr
      · rw [heq] at hlt
        exact absurd hlt (BitVec.lt_irrefl current)
    refine ⟨fun desc hdesc hz hpos => ⟨r, hpr, hlt, ?_⟩, fun h0 => hne (h0.2 r hpr hlt)⟩
    obtain ⟨c, h, hreach⟩ := candidate_of_roundsToZero hp hc hle hz
    exact hreach ▸ habove desc hdesc c h
  · rintro ⟨hreaches, -⟩
    have hgreatest : ∀ q, Page ⟨some ds⟩ p q → q < current → q ≤ r := by
      intro q hq hqlt
      obtain ⟨desc, hdesc, c, h, hqc⟩ := exists_previousCandidate hp hc hle hq hqlt
      exact BitVec.le_def.2 (Nat.le_trans hqc (habove desc hdesc c h))
    refine Or.inl ⟨?_, hlt, hgreatest⟩
    rcases previousCandidate_kinds hp hc hle x with
      ⟨h, -⟩ | ⟨c, h, -, hholds, hdvd, -⟩ | ⟨hz, -, c, h, hreach⟩
    · rw [h] at hrx
      cases hrx
    · rw [h] at hrx
      cases hrx
      exact (page_iff hp rfl).2 ⟨hdvd, x, hx, hholds⟩
    · rw [h] at hrx
      cases hrx
      obtain ⟨q, hq, hqlt, hrq⟩ := hreaches x hx hz (by bv_omega)
      have hqr := BitVec.le_def.1 (hgreatest q hq hqlt)
      have heq : q = r := BitVec.eq_of_toNat_eq (by omega)
      exact heq ▸ hq

/-- **The search downwards**, if the page before is not valid. -/
theorem previousSearch_iff (hc : p.toNat ∣ current.toNat) (hle : p.toNat ≤ current.toNat) :
    PreviousPage ⟨some ds⟩ p current
        (if ds.foldl (previousPageStep current p) 0 ≠ 0 then
          ds.foldl (previousPageStep current p) 0 else current) ↔
      ReachesHeld ds p current ∧ ¬ OnlyPageZero ds p current := by
  rcases (previousPageStep_search hp hc hle).foldl_finds ds fun _ _ => trivial with
    ⟨hr, hnone⟩ | ⟨⟨x, hx, hrx⟩, hleast⟩
  · rw [hr, if_neg fun h => h rfl]
    exact previousPage_none hp hc hle hnone
  · obtain ⟨hrx, hne⟩ := candidate_ne_zero_iff.1 hrx
    rw [if_pos hne]
    refine previousPage_some hp hc hle hx hrx hne fun desc hdesc c h => ?_
    by_cases hc0 : c = 0
    · rw [hc0]
      exact Nat.zero_le _
    · have hkey : 2 ^ 64 - (ds.foldl (previousPageStep current p) 0).toNat ≤ 2 ^ 64 - c.toNat :=
        hleast desc hdesc c (candidate_ne_zero_iff.2 ⟨h, hc0⟩)
      have hlt := c.isLt
      omega

theorem previousPage_and_not_mask (ds : List NxMemoryDescriptor) (address : NxU64) :
    pageCoreGetPreviousValidPageAddress ⟨some ds⟩ address p =
      pageCoreGetPreviousValidPageAddress ⟨some ds⟩ (address &&& ~~~(p - 1)) p := by
  have hp0 := hp.pos
  simp only [pageCoreGetPreviousValidPageAddress,
    Align.and_not_mask_of_dvd hp (Align.dvd_and_not_mask (x := address) hp)]
  by_cases haddress : address = 0
  · have hzero : address &&& ~~~(p - 1) = 0 := by
      rw [haddress]
      exact BitVec.zero_and
    rw [if_pos (Or.inr haddress), if_pos (Or.inr hzero), hzero, haddress]
  rw [if_neg (by rw [not_or]; exact ⟨hp.ne_zero, haddress⟩)]
  by_cases hzero : address &&& ~~~(p - 1) = 0
  · have hlt : (0 : NxU64) < p := BitVec.lt_def.2 hp0
    rw [hzero, if_pos hlt, if_pos (Or.inr rfl)]
  · rw [if_neg (show ¬ (p = 0 ∨ _) by rw [not_or]; exact ⟨hp.ne_zero, hzero⟩)]

/-- **The previous page** from the second page on. -/
theorem previousPage_from (hc : p.toNat ∣ current.toNat) (hle : p.toNat ≤ current.toNat) :
    PreviousPage ⟨some ds⟩ p current (pageCoreGetPreviousValidPageAddress ⟨some ds⟩ current p) ↔
      Page ⟨some ds⟩ p (current - p) ∨
        ReachesHeld ds p current ∧ ¬ OnlyPageZero ds p current := by
  have hp0 := hp.pos
  have hne : current ≠ 0 := by bv_omega
  have hprev : (current - p).toNat = current.toNat - p.toNat :=
    BitVec.toNat_sub_of_le (BitVec.le_def.2 hle)
  have hdvd : p.toNat ∣ (current - p).toNat := hprev ▸ Nat.dvd_sub hc (dvd_refl p.toNat)
  have hvalid : isPageValid ⟨some ds⟩ (current - p) p = true ↔ Page ⟨some ds⟩ p (current - p) := by
    have hlt := current.isLt
    rw [isPageValid_iff_holdsRange hp rfl hdvd (by omega), page_iff hp rfl]
    exact (and_iff_right hdvd).symm
  simp only [pageCoreGetPreviousValidPageAddress, Align.and_not_mask_of_dvd hp hc]
  rw [if_neg (by rw [not_or]; exact ⟨hp.ne_zero, hne⟩),
    if_neg fun h => absurd (BitVec.lt_def.1 h) (Nat.not_lt.2 hle)]
  by_cases hfast : isPageValid ⟨some ds⟩ (current - p) p = true
  · rw [if_pos hfast]
    have hpage := hvalid.1 hfast
    refine iff_of_true (Or.inl ⟨hpage, BitVec.lt_def.2 (by omega), fun q hq hlt => ?_⟩)
      (Or.inl hpage)
    have := Align.add_le_of_lt hq.1 hc (BitVec.lt_def.1 hlt)
    rw [BitVec.le_def]
    omega
  · rw [if_neg hfast, previousSearch_iff hp hc hle]
    exact (or_iff_right fun h => hfast (hvalid.2 h)).symm

/-- **The previous page is the greatest valid page below**, or the page itself
    without one, except where the page before is not valid and either a
    descriptor reaches a page above all valid ones, or page 0 is the only one. -/
theorem previous_page_iff (ds : List NxMemoryDescriptor) (address : NxU64) :
    PreviousPage ⟨some ds⟩ p (address &&& ~~~(p - 1))
        (pageCoreGetPreviousValidPageAddress ⟨some ds⟩ address p) ↔
      (address &&& ~~~(p - 1) ≠ 0 →
        Page ⟨some ds⟩ p ((address &&& ~~~(p - 1)) - p) ∨
          ReachesHeld ds p (address &&& ~~~(p - 1)) ∧
            ¬ OnlyPageZero ds p (address &&& ~~~(p - 1))) := by
  have hc : p.toNat ∣ (address &&& ~~~(p - 1)).toNat := Align.dvd_and_not_mask hp
  rw [previousPage_and_not_mask hp]
  generalize address &&& ~~~(p - 1) = current at hc ⊢
  by_cases hzero : current = 0
  · rw [hzero]
    exact iff_of_true previousPage_zero fun h => absurd rfl h
  · have hle := Nat.le_of_dvd (by bv_omega) hc
    rw [previousPage_from hp hc hle]
    exact ⟨fun h _ => h, fun h => h hzero⟩

end

/-- One page of conventional memory at 0. -/
def zeroPageMap : PageMemAddressMap := ⟨some [⟨.conventional, 0, 1, 0, 0⟩]⟩

theorem previous_page_iff_before :
    PreviousPage onePageMap 4096 ((0x2123 : NxU64) &&& ~~~(4096 - 1))
      (pageCoreGetPreviousValidPageAddress onePageMap 0x2123 4096) :=
  (previous_page_iff ⟨12, rfl⟩ _ 0x2123).2 fun _ => Or.inl ⟨by decide, by decide⟩

/-- One page further up, the search does not find page 0. -/
theorem previous_page_zero :
    pageCoreGetPreviousValidPageAddress zeroPageMap 0x2000 4096 = 0x2000 ∧
    ¬ PreviousPage zeroPageMap 4096 ((0x2000 : NxU64) &&& ~~~(4096 - 1))
      (pageCoreGetPreviousValidPageAddress zeroPageMap 0x2000 4096) := by
  have hr : pageCoreGetPreviousValidPageAddress zeroPageMap 0x2000 4096 = 0x2000 := by decide
  refine ⟨hr, ?_⟩
  rw [hr]
  rintro (⟨hpage, -⟩ | ⟨hnone, -⟩)
  · exact absurd hpage.2 (by decide)
  · exact hnone 0 ⟨by decide, by decide⟩ (by decide)

/-! ## Multiples of the page size -/

section
variable {map : PageMemAddressMap} {address : NxU64} (hp : PowTwo p)
include hp

/-- Whatever the map holds, the next page is a multiple of the page size. -/
theorem nextPage_dvd (haddress : p.toNat ∣ address.toNat) :
    p.toNat ∣ (pageCoreGetNextValidPageAddress map address p).toNat := by
  rw [pageCoreGetNextValidPageAddress]
  rcases map.descriptors with _ | ds
  · exact haddress
  simp only [Align.and_not_mask_of_dvd hp haddress]
  rw [if_neg hp.ne_zero]
  split_ifs with htop hfast
  · exact haddress
  · rw [BitVec.toNat_add]
    exact (Nat.dvd_mod_iff hp.dvd_two_pow).2 (Nat.dvd_add haddress (dvd_refl p.toNat))
  · refine List.foldlRecOn (motive := fun c : NxU64 => p.toNat ∣ c.toNat) ds _ haddress
      fun best hbest desc _ => ?_
    rw [nextPageStep]
    rcases hc : nextPageCandidate (address + p) p desc with _ | c
    · exact hbest
    · dsimp only
      split_ifs
      · exact nextPageCandidate_dvd hp hc
      · exact hbest

/-- So is the previous page. -/
theorem previousPage_dvd (haddress : p.toNat ∣ address.toNat) :
    p.toNat ∣ (pageCoreGetPreviousValidPageAddress map address p).toNat := by
  rw [pageCoreGetPreviousValidPageAddress]
  rcases map.descriptors with _ | ds
  · exact haddress
  simp only [Align.and_not_mask_of_dvd hp haddress]
  have hbest : p ≤ address →
      p.toNat ∣ (ds.foldl (previousPageStep address p) 0).toNat := by
    intro hle
    refine List.foldlRecOn (motive := fun c : NxU64 => p.toNat ∣ c.toNat) ds _
      (Nat.dvd_zero p.toNat) fun best hbest desc _ => ?_
    rw [previousPageStep]
    rcases hc : previousPageCandidate address p desc with _ | c
    · exact hbest
    · dsimp only
      split_ifs
      · exact previousPageCandidate_dvd hp haddress hle hc
      · exact hbest
  split_ifs with hzero hlow hfast hfound
  · exact haddress
  · exact haddress
  · rw [BitVec.toNat_sub_of_le (BitVec.not_lt.1 hlow)]
    exact Nat.dvd_sub haddress (dvd_refl p.toNat)
  · exact hbest (BitVec.not_lt.1 hlow)
  · exact haddress

end

end UefiNexus
