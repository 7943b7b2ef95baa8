/-
  Page navigation in NexusMemLib, in exact arithmetic.

  Every function of the navigation computes its result in any exact arithmetic,
  so no operation on its way wraps around.  `NextOf` and `PreviousOf` say which
  page the candidate of one descriptor is; the searches keep the nearest one.

  A descriptor whose first page lies below the next page has no page above that
  is nearer: with such a page it would have the next page too, and the search
  begins only when no descriptor has that.
-/
import UefiNexus.Lib.Search
import UefiNexus.NexusMemLib.PageNavigation
import UefiNexus.Proof.Browsable

namespace UefiNexus

open Align (PowTwo)
open Checked (Arith Computes)

/-! ## Descriptors -/

/-- The end of a browsable descriptor that the loops do not skip. -/
def browsableStop (desc : EfiMemoryDescriptor) : Option NxU64 :=
  if isMemoryTypeBrowsable desc.type then desc.descriptorEnd else none

theorem browsableStop_eq_some {desc : EfiMemoryDescriptor} {stop : NxU64} :
    browsableStop desc = some stop ↔
      isMemoryTypeBrowsable desc.type = true ∧ desc.WellFormed ∧ stop.toNat = desc.extent.stop := by
  rw [browsableStop]
  by_cases htype : isMemoryTypeBrowsable desc.type = true
  · rw [if_pos htype, EfiMemoryDescriptor.descriptorEnd_eq_some]
    exact ⟨fun h => ⟨htype, h⟩, And.right⟩
  · rw [if_neg htype]
    exact iff_of_false (by simp) fun h => htype h.1

section
variable {desc : EfiMemoryDescriptor} {q n : ℕ}

/-- A descriptor that has a range is not skipped, and ends behind the range. -/
theorem BrowsableAt.le_stop (h : BrowsableAt desc q n) {stop : NxU64}
    (hstop : browsableStop desc = some stop) : q + n ≤ stop.toNat := by
  rw [(browsableStop_eq_some.1 hstop).2.2]
  exact h.le_end

theorem not_browsableAt_of_skipped (h : browsableStop desc = none) (hn : 0 < n) :
    ¬ BrowsableAt desc q n := by
  rintro ⟨htype, hstart, hend, hlt⟩
  have hstop : (BitVec.ofNat 64 desc.extent.stop).toNat = desc.extent.stop := by
    rw [BitVec.toNat_ofNat]
    exact Nat.mod_eq_of_lt hlt
  have hsome := browsableStop_eq_some.2 ⟨htype, ⟨by omega, hlt⟩, hstop⟩
  rw [h] at hsome
  cases hsome

/-- What it has. -/
theorem browsableAt_of_stop {stop : NxU64} (h : browsableStop desc = some stop)
    (hstart : desc.physicalStart.toNat ≤ q) (hend : q + n ≤ stop.toNat) : BrowsableAt desc q n := by
  obtain ⟨htype, hwf, hstop⟩ := browsableStop_eq_some.1 h
  rw [hstop] at hend
  exact ⟨htype, hstart, hend, hwf.2⟩

end

theorem toNat_maxUint64 : maxUint64.toNat = 2 ^ 64 - 1 := rfl

theorem toNat_maxUint64_sub (x : NxU64) : (maxUint64 - x).toNat = 2 ^ 64 - 1 - x.toNat := by
  have hx : x.toNat ≤ maxUint64.toNat := Nat.le_pred_of_lt x.isLt
  rw [BitVec.toNat_sub_of_le hx, toNat_maxUint64]

/-! ## The functions of a descriptor -/

section
variable {m : Type → Type} [Monad m] {arith : Arith 64 m} (harith : arith.Exact)
include harith

/-- The subtractions of the guards. -/
theorem guard_exact (x : NxU64) : arith.sub maxUint64 x = pure (maxUint64 - x) :=
  harith.sub _ _ (Nat.le_pred_of_lt x.isLt)

variable [LawfulMonad m]

theorem alignDown_exact (q : NxU64) {p : NxU64} (hp : PowTwo p) :
    alignDownWith arith q p = pure (alignDown q p) := by
  rw [alignDownWith, harith.sub p 1 hp.pos, pure_bind]
  rfl

theorem browsableEnd_exact (desc : EfiMemoryDescriptor) :
    browsableEnd arith desc = pure (browsableStop desc) := by
  rw [browsableEnd, browsableStop, EfiMemoryDescriptor.descriptorEnd]
  by_cases htype : isMemoryTypeBrowsable desc.type = true
  · by_cases hpages : desc.numberOfPages = 0 ∨ desc.numberOfPages > maxUint64 >>> 12
    · rw [if_pos (Or.inr hpages), if_pos htype, if_pos hpages]
    · have hshift : desc.numberOfPages.toNat * 2 ^ 12 < 2 ^ 64 := by
        simp only [maxUint64] at hpages
        bv_omega
      rw [if_neg (not_or.2 ⟨not_not.2 htype, hpages⟩), if_pos htype, if_neg hpages,
        harith.shiftLeft _ _ hshift, pure_bind, guard_exact harith, pure_bind]
      by_cases hover : desc.physicalStart > maxUint64 - desc.numberOfPages <<< 12
      · simp only [if_pos hover]
      · have hadd : desc.physicalStart.toNat + (desc.numberOfPages <<< 12).toNat < 2 ^ 64 := by
          simp only [maxUint64] at hover
          bv_omega
        simp only [if_neg hover, harith.add _ _ hadd, pure_bind]
  · rw [if_pos (Or.inl htype), if_neg htype]

end

section
variable {p : NxU64} (hp : PowTwo p)
include hp

/-- **Rounding up**: the least page from `start` on, if there is one. -/
theorem firstPageFrom_computes (start : NxU64) :
    ∃ r, Computes (fun arith => firstPageFrom arith start p) r ∧
      (∀ c, r = some c → p.toNat ∣ c.toNat ∧ start.toNat ≤ c.toNat ∧
        ∀ q, p.toNat ∣ q → start.toNat ≤ q → c.toNat ≤ q) ∧
      (r = none → ∀ q, p.toNat ∣ q → start.toNat ≤ q → 2 ^ 64 ≤ q) := by
  have hdown := toNat_alignDown hp start
  have hdvd : p.toNat ∣ (alignDown start p).toNat := Align.dvd_and_not_mask hp
  have hmod := Nat.mod_lt start.toNat hp.pos
  -- a page from `start` on is at or above the next multiple
  have hnext : ∀ q, p.toNat ∣ q → (alignDown start p).toNat < start.toNat → start.toNat ≤ q →
      (alignDown start p).toNat + p.toNat ≤ q := fun q hq hlt hle =>
    Align.add_le_of_lt hdvd hq (Nat.lt_of_lt_of_le hlt hle)
  by_cases hbelow : alignDown start p < start
  · have hlt : (alignDown start p).toNat < start.toNat := hbelow
    by_cases hguard : alignDown start p > maxUint64 - p
    · refine ⟨none, ?_, fun c hc => (by cases hc), fun _ q hq hle => ?_⟩
      · intro m _ _ arith harith
        simp only [firstPageFrom, alignDown_exact harith start hp, guard_exact harith, pure_bind,
          if_pos hbelow, if_pos hguard]
      · have hend : 2 ^ 64 - 1 - p.toNat < (alignDown start p).toNat := by
          rw [← toNat_maxUint64_sub]
          exact hguard
        have := hnext q hq hlt hle
        omega
    · have hfits : (alignDown start p).toNat + p.toNat < 2 ^ 64 := by
        have hend : (alignDown start p).toNat ≤ 2 ^ 64 - 1 - p.toNat := by
          rw [← toNat_maxUint64_sub]
          exact Nat.le_of_not_lt hguard
        have := p.isLt
        omega
      have hsum : (alignDown start p + p).toNat = (alignDown start p).toNat + p.toNat :=
        BitVec.toNat_add_of_lt hfits
      refine ⟨some (alignDown start p + p), ?_, ?_, fun h => (by cases h)⟩
      · intro m _ _ arith harith
        simp only [firstPageFrom, alignDown_exact harith start hp, guard_exact harith, pure_bind,
          if_pos hbelow, if_neg hguard, harith.add _ _ hfits]
      · rintro c ⟨⟩
        rw [hsum]
        exact ⟨Nat.dvd_add hdvd (Nat.dvd_refl _), by omega, fun q hq hle => hnext q hq hlt hle⟩
  · refine ⟨some (alignDown start p), ?_, ?_, fun h => (by cases h)⟩
    · intro m _ _ arith harith
      simp only [firstPageFrom, alignDown_exact harith start hp, pure_bind, if_neg hbelow]
    · have hle : start.toNat ≤ (alignDown start p).toNat := Nat.le_of_not_lt hbelow
      rintro c ⟨⟩
      exact ⟨hdvd, hle, fun q _ hq => by omega⟩

end

/-- The candidate above: the first page of the descriptor, if it is at or above
    `n`.  Without a candidate the descriptor has `n` whenever it has a page above. -/
structure NextOf (p n : NxU64) (desc : EfiMemoryDescriptor) (r : Option NxU64) : Prop where
  found : ∀ c, r = some c → p.toNat ∣ c.toNat ∧ n.toNat ≤ c.toNat ∧
    BrowsableAt desc c.toNat p.toNat ∧
      ∀ q, p.toNat ∣ q → BrowsableAt desc q p.toNat → c.toNat ≤ q
  none_found : r = none → ∀ q, p.toNat ∣ q → n.toNat ≤ q → BrowsableAt desc q p.toNat →
    BrowsableAt desc n.toNat p.toNat

/-- The candidate below: the last page of the descriptor at or below `n`. -/
structure PreviousOf (p n : NxU64) (desc : EfiMemoryDescriptor) (r : Option NxU64) : Prop where
  found : ∀ c, r = some c → p.toNat ∣ c.toNat ∧ c.toNat ≤ n.toNat ∧
    BrowsableAt desc c.toNat p.toNat ∧
      ∀ q, p.toNat ∣ q → q ≤ n.toNat → BrowsableAt desc q p.toNat → q ≤ c.toNat
  none_found : r = none → ∀ q, p.toNat ∣ q → q ≤ n.toNat → ¬ BrowsableAt desc q p.toNat

/-- The page `n` or the last one, whichever is lower, unless the first page lies above. -/
def between (n firstPage lastPage : NxU64) : Option NxU64 :=
  if lastPage < firstPage ∨ n < firstPage then none
  else some (if n < lastPage then n else lastPage)

theorem between_eq_some {p n firstPage lastPage c : NxU64} (hn : p.toNat ∣ n.toNat)
    (hlast : p.toNat ∣ lastPage.toNat) (h : between n firstPage lastPage = some c) :
    p.toNat ∣ c.toNat ∧ firstPage.toNat ≤ c.toNat ∧ c.toNat = min n.toNat lastPage.toNat := by
  simp only [between, BitVec.lt_def] at h
  split_ifs at h with hout hlower
  · obtain rfl := Option.some.inj h
    exact ⟨hn, by omega, by omega⟩
  · obtain rfl := Option.some.inj h
    exact ⟨hlast, by omega, by omega⟩

theorem between_eq_none {n firstPage lastPage : NxU64} (h : between n firstPage lastPage = none)
    {q : ℕ} (hfirst : firstPage.toNat ≤ q) (hlast : q ≤ lastPage.toNat) : ¬ q ≤ n.toNat := by
  simp only [between, BitVec.lt_def] at h
  split_ifs at h with hout
  omega

section
variable {m : Type → Type} [Monad m] [LawfulMonad m] {arith : Arith 64 m} (harith : arith.Exact)
  {p n stop firstPage : NxU64} {desc : EfiMemoryDescriptor}
  (hstop : browsableStop desc = some stop)
  (hfirst : firstPageFrom arith desc.physicalStart p = pure (some firstPage))
include harith hstop hfirst

/-- The search above: the first page, if it is high enough and has room. -/
theorem nextCandidate_eq :
    nextCandidate arith n p desc =
      pure (if n.toNat ≤ firstPage.toNat ∧ firstPage.toNat + p.toNat ≤ stop.toNat then
        some firstPage else none) := by
  simp only [nextCandidate, browsableEnd_exact harith, hstop, pure_bind, hfirst]
  by_cases hguard : firstPage ≥ n ∧ firstPage ≤ stop
  · have hle : firstPage.toNat ≤ stop.toNat := hguard.2
    have hroom : p ≤ stop - firstPage ↔ firstPage.toNat + p.toNat ≤ stop.toNat := by
      rw [BitVec.le_def, BitVec.toNat_sub_of_le hguard.2]
      omega
    have hge : n.toNat ≤ firstPage.toNat := hguard.1
    simp only [if_pos hguard, harith.sub _ _ hle, pure_bind, hroom, hge, true_and]
    exact (apply_ite pure _ _ _).symm
  · have hout : ¬ (n.toNat ≤ firstPage.toNat ∧ firstPage.toNat + p.toNat ≤ stop.toNat) := by
      rintro ⟨hge, hroom⟩
      refine hguard ⟨hge, ?_⟩
      rw [BitVec.le_def]
      omega
    simp only [if_neg hguard, if_neg hout]

variable (hp : PowTwo p) (hroom : desc.physicalStart.toNat + p.toNat ≤ stop.toNat)
include hp hroom

/-- The search below, in a descriptor that has room for a page. -/
theorem previousCandidate_eq :
    previousCandidate arith n p desc =
      pure (between n firstPage (alignDown (stop - p) p)) := by
  have hextent : desc.physicalStart.toNat ≤ stop.toNat := by omega
  have htop : p.toNat ≤ stop.toNat := by omega
  have hsmall : ¬ stop - desc.physicalStart < p := by
    rw [BitVec.lt_def, BitVec.toNat_sub_of_le hextent]
    omega
  simp only [previousCandidate, browsableEnd_exact harith, hstop, pure_bind, hfirst,
    harith.sub _ _ hextent, if_neg hsmall, harith.sub _ _ htop, alignDown_exact harith _ hp,
    gt_iff_lt, between]
  by_cases hempty : alignDown (stop - p) p < firstPage
  · rw [if_pos hempty, if_pos (Or.inl hempty)]
  by_cases habove : n < firstPage
  · rw [if_neg hempty, if_pos habove, if_pos (Or.inr habove)]
  have hge : (if n < alignDown (stop - p) p then n else alignDown (stop - p) p) ≥ firstPage := by
    split_ifs
    · exact Nat.le_of_not_lt habove
    · exact Nat.le_of_not_lt hempty
  rw [if_neg hempty, if_neg habove, if_pos hge, if_neg (not_or.2 ⟨hempty, habove⟩)]

end

section
variable {p n : NxU64} (hp : PowTwo p)
include hp

theorem nextCandidate_computes (desc : EfiMemoryDescriptor) :
    ∃ r, Computes (fun arith => nextCandidate arith n p desc) r ∧ NextOf p n desc r := by
  rcases hstop : browsableStop desc with _ | stop
  · refine ⟨none, ?_, fun c hc => (by cases hc), fun _ q _ _ hat => ?_⟩
    · intro m _ _ arith harith
      simp only [nextCandidate, browsableEnd_exact harith, hstop, pure_bind]
    · exact absurd hat (not_browsableAt_of_skipped hstop hp.pos)
  obtain ⟨first, hfirst, hfound, hnone⟩ := firstPageFrom_computes hp desc.physicalStart
  rcases first with _ | firstPage
  · refine ⟨none, ?_, fun c hc => (by cases hc), fun _ q hq _ hat => ?_⟩
    · intro m _ _ arith harith
      have hnone' : firstPageFrom arith desc.physicalStart p = pure none := hfirst arith harith
      simp only [nextCandidate, browsableEnd_exact harith, hstop, pure_bind, hnone']
    · have hwide := hnone rfl q hq hat.start_le
      have hend := hat.le_end.trans_lt hat.end_lt
      omega
  obtain ⟨hdvd, hstart, hleast⟩ := hfound firstPage rfl
  refine ⟨_, fun arith harith => nextCandidate_eq harith hstop (hfirst arith harith),
    fun c hc => ?_, fun hc q hq hn hat => ?_⟩
  · split_ifs at hc with hgood
    obtain rfl := Option.some.inj hc
    exact ⟨hdvd, hgood.1, browsableAt_of_stop hstop hstart hgood.2,
      fun q hq hat => hleast q hq hat.start_le⟩
  · -- the descriptor has room at `q`, so its first page lies below `n`
    have hle := hleast q hq hat.start_le
    have hend := hat.le_stop hstop
    have hbelow : ¬ n.toNat ≤ firstPage.toNat := by
      intro hge
      rw [if_pos ⟨hge, by omega⟩] at hc
      cases hc
    exact browsableAt_of_stop hstop (by omega) (by omega)

/-- The last page that ends at or below `stop`. -/
theorem lastPageBelow_spec {stop : NxU64} (h : p.toNat ≤ stop.toNat) :
    p.toNat ∣ (alignDown (stop - p) p).toNat ∧
      (alignDown (stop - p) p).toNat + p.toNat ≤ stop.toNat ∧
      ∀ q, p.toNat ∣ q → q + p.toNat ≤ stop.toNat → q ≤ (alignDown (stop - p) p).toNat := by
  have hdvd : p.toNat ∣ (alignDown (stop - p) p).toNat := Align.dvd_and_not_mask hp
  have htop : (stop - p).toNat = stop.toNat - p.toNat := BitVec.toNat_sub_of_le h
  have hdown := toNat_alignDown hp (stop - p)
  have hmod := Nat.mod_lt (stop - p).toNat hp.pos
  rw [htop] at hdown hmod
  refine ⟨hdvd, by omega, fun q hq hend => ?_⟩
  by_contra hlt
  have := Align.add_le_of_lt hdvd hq (Nat.lt_of_not_le hlt)
  omega

theorem previousCandidate_computes (hn : p.toNat ∣ n.toNat) (desc : EfiMemoryDescriptor) :
    ∃ r, Computes (fun arith => previousCandidate arith n p desc) r ∧
      PreviousOf p n desc r := by
  rcases hstop : browsableStop desc with _ | stop
  · refine ⟨none, ?_, fun c hc => (by cases hc), fun _ q _ _ => ?_⟩
    · intro m _ _ arith harith
      simp only [previousCandidate, browsableEnd_exact harith, hstop, pure_bind]
    · exact not_browsableAt_of_skipped hstop hp.pos
  have hextent : desc.physicalStart.toNat ≤ stop.toNat := by
    rw [(browsableStop_eq_some.1 hstop).2.2, EfiMemoryDescriptor.extent, Span.stop]
    exact Nat.le_add_right _ _
  by_cases hroom : desc.physicalStart.toNat + p.toNat ≤ stop.toNat
  · obtain ⟨first, hfirst, hfound, hnone⟩ := firstPageFrom_computes hp desc.physicalStart
    rcases first with _ | firstPage
    · have hsmall : ¬ stop - desc.physicalStart < p := by
        rw [BitVec.lt_def, BitVec.toNat_sub_of_le hextent]
        omega
      refine ⟨none, ?_, fun c hc => (by cases hc), fun _ q hq _ hat => ?_⟩
      · intro m _ _ arith harith
        have hnone' : firstPageFrom arith desc.physicalStart p = pure none := hfirst arith harith
        simp only [previousCandidate, browsableEnd_exact harith, hstop, pure_bind,
          harith.sub _ _ hextent, if_neg hsmall, hnone']
      · have hwide := hnone rfl q hq hat.start_le
        have hend := hat.le_end.trans_lt hat.end_lt
        omega
    obtain ⟨hdvd, hstart, hleast⟩ := hfound firstPage rfl
    obtain ⟨hlastDvd, hlastEnd, hlast⟩ := lastPageBelow_spec hp (show p.toNat ≤ stop.toNat by omega)
    refine ⟨_, fun arith harith => previousCandidate_eq harith hstop (hfirst arith harith) hp hroom,
      fun c hc => ?_, fun hc q hq hle hat => ?_⟩
    · obtain ⟨hcdvd, hlow, hmin⟩ := between_eq_some hn hlastDvd hc
      refine ⟨hcdvd, by omega, browsableAt_of_stop hstop (by omega) (by omega), ?_⟩
      intro q hq hle hat
      have hhigh := hlast q hq (hat.le_stop hstop)
      omega
    · exact between_eq_none hc (hleast q hq hat.start_le) (hlast q hq (hat.le_stop hstop)) hle
  · have hsmall : stop - desc.physicalStart < p := by
      rw [BitVec.lt_def, BitVec.toNat_sub_of_le hextent]
      omega
    refine ⟨none, ?_, fun c hc => (by cases hc), fun _ q _ _ hat => ?_⟩
    · intro m _ _ arith harith
      simp only [previousCandidate, browsableEnd_exact harith, hstop, pure_bind,
        harith.sub _ _ hextent, if_pos hsmall]
    · have hstart := hat.start_le
      have hend := hat.le_stop hstop
      omega

end

/-! ## The searches -/

/-- The candidate is taken if it is below the best page. -/
def keepNext (candidate : EfiMemoryDescriptor → Option NxU64) (bestPage : NxU64)
    (desc : EfiMemoryDescriptor) : NxU64 :=
  match candidate desc with
  | none => bestPage
  | some c => if c < bestPage then c else bestPage

/-- The candidate is taken if it is the first or above the best page. -/
def keepPrevious (candidate : EfiMemoryDescriptor → Option NxU64) (s : NxU64 × Bool)
    (desc : EfiMemoryDescriptor) : NxU64 × Bool :=
  match candidate desc with
  | none => s
  | some c => if ¬ s.2 ∨ c > s.1 then (c, true) else s

/-- `MAX_UINT64` is no candidate, so it means "none yet". -/
theorem keepNext_isSearch {candidate : EfiMemoryDescriptor → Option NxU64}
    (hlt : ∀ desc c, candidate desc = some c → c.toNat < 2 ^ 64 - 1) :
    Search.IsSearch (fun _ => True) BitVec.toNat candidate maxUint64 (keepNext candidate) where
  skip b desc h := by simp only [keepNext, h]
  first desc c _ h := by
    have hbelow : c < maxUint64 := by
      rw [BitVec.lt_def, toNat_maxUint64]
      exact hlt desc c h
    simp only [keepNext, h, if_pos hbelow]
  next b desc c _ _ h := by simp only [keepNext, h, BitVec.lt_def]
  cand_ne desc c _ h := by
    rintro rfl
    exact absurd (hlt desc _ h) (by decide)

/-- The key of the search below: the greater the page, the smaller the key. -/
def belowKey (s : NxU64 × Bool) : ℕ := if s.2 then 2 ^ 64 - s.1.toNat else 2 ^ 64 + 1

theorem keepPrevious_isSearch (candidate : EfiMemoryDescriptor → Option NxU64) :
    Search.IsSearch (fun _ => True) belowKey (fun desc => (candidate desc).map fun c => (c, true))
      (0, false) (keepPrevious candidate) where
  skip b desc h := by
    have hnone : candidate desc = none := Option.map_eq_none_iff.1 h
    simp only [keepPrevious, hnone]
  first desc s _ h := by
    obtain ⟨c, hc, rfl⟩ := Option.map_eq_some_iff.1 h
    simp only [keepPrevious, hc, Bool.false_eq_true, not_false_eq_true, true_or, if_true]
  next b desc s _ _ h := by
    obtain ⟨c, hc, rfl⟩ := Option.map_eq_some_iff.1 h
    obtain ⟨best, found⟩ := b
    have hkey : ¬ found = true ∨ c > best ↔ belowKey (c, true) < belowKey (best, found) := by
      have hb := best.isLt
      have hc' := c.isLt
      cases found with
      | false =>
        simp only [belowKey, Bool.false_eq_true, not_false_eq_true, true_or, if_true, if_false,
          true_iff]
        omega
      | true =>
        simp only [belowKey, not_true_eq_false, false_or, if_true, gt_iff_lt, BitVec.lt_def]
        omega
    simp only [keepPrevious, hc, hkey]
  cand_ne desc s _ h := by
    obtain ⟨c, -, rfl⟩ := Option.map_eq_some_iff.1 h
    intro heq
    cases heq

/-! ## The pages around an address -/

/-- The valid pages of NexusMemLib: the multiples of the page size it accepts. -/
def LibPage (lib : MemLib) (pageSize q : NxU64) : Prop :=
  pageSize.toNat ∣ q.toNat ∧ lib.isPageValid q pageSize = true

section
variable {lib : MemLib} {p : NxU64} (hp : PowTwo p)
include hp

theorem libPage_iff {q : NxU64} :
    LibPage lib p q ↔
      p.toNat ∣ q.toNat ∧ ∃ desc ∈ lib.descriptors, BrowsableAt desc q.toNat p.toNat := by
  refine and_congr_right fun hdvd => ?_
  rw [memLib_isPageValid_iff hp, Nat.mod_eq_zero_of_dvd hdvd, Nat.sub_zero]

variable (lib) in
theorem isPageValid_computes (q : NxU64) :
    Computes (fun arith => isPageValidWith arith lib q p) (lib.isPageValid q p) := by
  intro m _ _ arith harith
  simp only [isPageValidWith, MemLib.isPageValid, if_neg hp.ne_zero, alignDown_exact harith q hp,
    guard_exact harith, pure_bind]
  by_cases hguard : alignDown q p > maxUint64 - p
  · simp only [if_pos hguard]
  · have hfits : (alignDown q p).toNat + p.toNat < 2 ^ 64 := by
      have hwrap := mt guard_iff.2 (not_or.2 ⟨hp.ne_zero, hguard⟩)
      omega
    simp only [if_neg hguard, harith.add _ _ hfits, pure_bind]
    refine Computes.anyM (fun arith desc => do
      match ← browsableEnd arith desc with
      | none => return false
      | some descriptorEnd =>
        return alignDown q p ≥ desc.physicalStart && alignDown q p + p ≤ descriptorEnd)
      lib.descriptors (fun desc _ => ?_) arith harith
    intro m _ _ arith harith
    simp only [browsableEnd_exact harith, pure_bind, browsableStop,
      EfiMemoryDescriptor.containsRange]
    cases isMemoryTypeBrowsable desc.type with
    | false => rfl
    | true => cases desc.descriptorEnd <;> rfl

end

/-- The least valid page above `current`, or `current` if there is none. -/
structure IsNextPage (lib : MemLib) (pageSize current r : NxU64) : Prop where
  least : (∃ q, LibPage lib pageSize q ∧ current < q) →
    LibPage lib pageSize r ∧ current < r ∧
      ∀ q, LibPage lib pageSize q → current < q → r ≤ q
  stay : (¬ ∃ q, LibPage lib pageSize q ∧ current < q) → r = current

/-- The greatest valid page below `current`, or `current` if there is none. -/
structure IsPreviousPage (lib : MemLib) (pageSize current r : NxU64) : Prop where
  greatest : (∃ q, LibPage lib pageSize q ∧ q < current) →
    LibPage lib pageSize r ∧ r < current ∧
      ∀ q, LibPage lib pageSize q → q < current → q ≤ r
  stay : (¬ ∃ q, LibPage lib pageSize q ∧ q < current) → r = current

section
variable {lib : MemLib} {p : NxU64}

theorem IsNextPage.of_least {current r : NxU64} (hr : LibPage lib p r) (hlt : current < r)
    (hleast : ∀ q, LibPage lib p q → current < q → r ≤ q) : IsNextPage lib p current r :=
  ⟨fun _ => ⟨hr, hlt, hleast⟩, fun h => absurd ⟨r, hr, hlt⟩ h⟩

theorem IsNextPage.of_none {current : NxU64} (h : ∀ q, LibPage lib p q → ¬ current < q) :
    IsNextPage lib p current current :=
  ⟨fun ⟨q, hq, hlt⟩ => absurd hlt (h q hq), fun _ => rfl⟩

theorem IsPreviousPage.of_greatest {current r : NxU64} (hr : LibPage lib p r) (hlt : r < current)
    (hgreatest : ∀ q, LibPage lib p q → q < current → q ≤ r) : IsPreviousPage lib p current r :=
  ⟨fun _ => ⟨hr, hlt, hgreatest⟩, fun h => absurd ⟨r, hr, hlt⟩ h⟩

theorem IsPreviousPage.of_none {current : NxU64} (h : ∀ q, LibPage lib p q → ¬ q < current) :
    IsPreviousPage lib p current current :=
  ⟨fun ⟨q, hq, hlt⟩ => absurd hlt (h q hq), fun _ => rfl⟩

variable (hp : PowTwo p)
include hp

/-- The search above: from the page `n`, which is not valid itself. -/
theorem nextSearch_computes {n : NxU64} (hn : p.toNat ∣ n.toNat)
    (hinvalid : ¬ lib.isPageValid n p = true) :
    ∃ best, Computes (fun arith => lib.descriptors.foldlM (nextStep arith n p) maxUint64) best ∧
      (best = maxUint64 ∧ (∀ q, LibPage lib p q → ¬ n ≤ q) ∨
        best ≠ maxUint64 ∧ LibPage lib p best ∧ n ≤ best ∧
          ∀ q, LibPage lib p q → n ≤ q → best ≤ q) := by
  have hpos := hp.pos
  choose candidate hcandidate hspec using fun desc => nextCandidate_computes (n := n) hp desc
  have hsearch : Search.IsSearch (fun _ => True) BitVec.toNat candidate maxUint64
      (keepNext candidate) := by
    refine keepNext_isSearch fun desc c hc => ?_
    obtain ⟨-, -, hat, -⟩ := (hspec desc).found c hc
    have hend := hat.le_end.trans_lt hat.end_lt
    omega
  -- a descriptor with a page above has a candidate, as `n` is not valid
  have hsome : ∀ q, LibPage lib p q → n ≤ q → ∃ desc ∈ lib.descriptors,
      ∃ c, candidate desc = some c ∧ c.toNat ≤ q.toNat := by
    intro q hq hle
    obtain ⟨hdvd, desc, hmem, hat⟩ := (libPage_iff hp).1 hq
    rcases hc : candidate desc with _ | c
    · have hhas := (hspec desc).none_found hc q.toNat hdvd hle hat
      exact absurd ((libPage_iff hp).2 ⟨hn, desc, hmem, hhas⟩).2 hinvalid
    · obtain ⟨-, -, -, hleast⟩ := (hspec desc).found c hc
      exact ⟨desc, hmem, c, hc, hleast q.toNat hdvd hat⟩
  refine ⟨lib.descriptors.foldl (keepNext candidate) maxUint64, ?_, ?_⟩
  · refine Computes.foldlM (fun arith => nextStep arith n p) lib.descriptors
      (fun desc _ best => ?_) maxUint64
    intro m _ _ arith harith
    have hc : nextCandidate arith n p desc = pure (candidate desc) := hcandidate desc arith harith
    simp only [nextStep, hc, pure_bind, keepNext]
    cases candidate desc with
    | none => rfl
    | some c => exact (apply_ite pure _ _ _).symm
  · rcases hsearch.foldl_finds lib.descriptors fun _ _ => trivial with
      ⟨hmax, hnone⟩ | ⟨⟨desc, hmem, hbest⟩, hleast⟩
    · refine Or.inl ⟨hmax, fun q hq hle => ?_⟩
      obtain ⟨desc, hmem, c, hc, -⟩ := hsome q hq hle
      rw [hnone desc hmem] at hc
      cases hc
    · obtain ⟨hdvd, hge, hat, -⟩ := (hspec desc).found _ hbest
      refine Or.inr ⟨hsearch.cand_ne desc _ trivial hbest,
        (libPage_iff hp).2 ⟨hdvd, desc, hmem, hat⟩, hge, fun q hq hle => ?_⟩
      obtain ⟨desc', hmem', c, hc, hcq⟩ := hsome q hq hle
      exact (hleast desc' hmem' c hc).trans hcq

variable (lib) in
/-- The search below, up to the page `n`. -/
theorem previousSearch_computes {n : NxU64} (hn : p.toNat ∣ n.toNat) :
    ∃ s, Computes (fun arith => lib.descriptors.foldlM (previousStep arith n p) (0, false)) s ∧
      (s.2 = false ∧ (∀ q, LibPage lib p q → ¬ q ≤ n) ∨
        s.2 = true ∧ LibPage lib p s.1 ∧ s.1 ≤ n ∧ ∀ q, LibPage lib p q → q ≤ n → q ≤ s.1) := by
  choose candidate hcandidate hspec using fun desc => previousCandidate_computes hp hn desc
  have hsearch := keepPrevious_isSearch candidate
  have hsome : ∀ q, LibPage lib p q → q ≤ n → ∃ desc ∈ lib.descriptors,
      ∃ c, candidate desc = some c ∧ q.toNat ≤ c.toNat := by
    intro q hq hle
    obtain ⟨hdvd, desc, hmem, hat⟩ := (libPage_iff hp).1 hq
    rcases hc : candidate desc with _ | c
    · exact absurd hat ((hspec desc).none_found hc q.toNat hdvd hle)
    · obtain ⟨-, -, -, hgreatest⟩ := (hspec desc).found c hc
      exact ⟨desc, hmem, c, hc, hgreatest q.toNat hdvd hle hat⟩
  refine ⟨lib.descriptors.foldl (keepPrevious candidate) (0, false), ?_, ?_⟩
  · refine Computes.foldlM (fun arith => previousStep arith n p) lib.descriptors
      (fun desc _ s => ?_) (0, false)
    intro m _ _ arith harith
    have hc : previousCandidate arith n p desc = pure (candidate desc) :=
      hcandidate desc arith harith
    simp only [previousStep, hc, pure_bind, keepPrevious]
    cases candidate desc with
    | none => rfl
    | some c => exact (apply_ite pure _ _ _).symm
  · rcases hsearch.foldl_finds lib.descriptors fun _ _ => trivial with
      ⟨hstart, hnone⟩ | ⟨⟨desc, hmem, hbest⟩, hgreatest⟩
    · rw [hstart]
      refine Or.inl ⟨rfl, fun q hq hle => ?_⟩
      obtain ⟨desc, hmem, c, hc, -⟩ := hsome q hq hle
      rw [Option.map_eq_none_iff.1 (hnone desc hmem)] at hc
      cases hc
    · obtain ⟨best, hc, hs⟩ := Option.map_eq_some_iff.1 hbest
      rw [← hs] at hgreatest ⊢
      obtain ⟨hdvd, hle, hat, -⟩ := (hspec desc).found best hc
      refine Or.inr ⟨rfl, (libPage_iff hp).2 ⟨hdvd, desc, hmem, hat⟩, hle, fun q hq hqn => ?_⟩
      obtain ⟨desc', hmem', c, hc', hqc⟩ := hsome q hq hqn
      have hkey := hgreatest desc' hmem' (c, true) (Option.map_eq_some_iff.2 ⟨c, hc', rfl⟩)
      simp only [belowKey, if_true] at hkey
      have hlt := c.isLt
      have hbest' := best.isLt
      show q.toNat ≤ best.toNat
      omega

variable (lib) in
/-- The page above a page. -/
theorem pageAbove_spec {current : NxU64} (hcur : p.toNat ∣ current.toNat)
    (hfits : current.toNat + p.toNat < 2 ^ 64) :
    p.toNat ∣ (current + p).toNat ∧ current < current + p ∧
      ∀ q, LibPage lib p q → current < q → current + p ≤ q := by
  have hpos := hp.pos
  have hsum : (current + p).toNat = current.toNat + p.toNat := BitVec.toNat_add_of_lt hfits
  refine ⟨?_, ?_, fun q hq hlt => ?_⟩
  · rw [hsum]
    exact Nat.dvd_add hcur (Nat.dvd_refl _)
  · rw [BitVec.lt_def, hsum]
    omega
  · rw [BitVec.le_def, hsum]
    exact Align.add_le_of_lt hcur hq.1 (BitVec.lt_def.1 hlt)

variable (lib) in
/-- The page below a page. -/
theorem pageBelow_spec {current : NxU64} (hcur : p.toNat ∣ current.toNat)
    (hfits : p.toNat ≤ current.toNat) :
    p.toNat ∣ (current - p).toNat ∧ current - p < current ∧
      ∀ q, LibPage lib p q → q < current → q ≤ current - p := by
  have hpos := hp.pos
  have hdiff : (current - p).toNat = current.toNat - p.toNat := BitVec.toNat_sub_of_le hfits
  refine ⟨?_, ?_, fun q hq hlt => ?_⟩
  · rw [hdiff]
    exact Nat.dvd_sub hcur (Nat.dvd_refl _)
  · rw [BitVec.lt_def, hdiff]
    omega
  · have hend := Align.add_le_of_lt hq.1 hcur (BitVec.lt_def.1 hlt)
    rw [BitVec.le_def, hdiff]
    omega

variable (hcached : ¬ (p = 0 ∨ lib.gMemMap.isNone = true ∨ lib.gDescSize = 0))
include hcached

section
variable {m : Type → Type} [Monad m] [LawfulMonad m] {arith : Arith 64 m} (harith : arith.Exact)
include harith

/-- The search above, where there is a next page. -/
theorem getNextValidPageAddress_eq {address : NxU64}
    (hfits : (alignDown address p).toNat + p.toNat < 2 ^ 64) :
    getNextValidPageAddress arith lib address p =
      if lib.isPageValid (alignDown address p + p) p = true then pure (alignDown address p + p)
      else lib.descriptors.foldlM (nextStep arith (alignDown address p + p) p) maxUint64 >>=
        fun best => pure (if best = maxUint64 then alignDown address p else best) := by
  have hguard : ¬ alignDown address p > maxUint64 - p := by
    rw [gt_iff_lt, BitVec.lt_def, toNat_maxUint64_sub]
    omega
  have hfast := isPageValid_computes lib hp (alignDown address p + p) arith harith
  simp only [getNextValidPageAddress, if_neg hcached, alignDown_exact harith address hp,
    guard_exact harith, pure_bind, if_neg hguard, harith.add _ _ hfits, hfast]
  refine if_congr Iff.rfl rfl (bind_congr fun best => ?_)
  exact (apply_ite pure _ _ _).symm

/-- The search below, where there is a previous page. -/
theorem getPreviousValidPageAddress_eq {address : NxU64}
    (hfits : p.toNat ≤ (alignDown address p).toNat) :
    getPreviousValidPageAddress arith lib address p =
      if lib.isPageValid (alignDown address p - p) p = true then pure (alignDown address p - p)
      else lib.descriptors.foldlM (previousStep arith (alignDown address p - p) p) (0, false) >>=
        fun s => pure (if s.2 = true then s.1 else alignDown address p) := by
  have hguard : ¬ alignDown address p < p := Nat.not_lt.2 hfits
  have hfast := isPageValid_computes lib hp (alignDown address p - p) arith harith
  simp only [getPreviousValidPageAddress, if_neg hcached, alignDown_exact harith address hp,
    pure_bind, if_neg hguard, harith.sub _ _ hfits, hfast]
  refine if_congr Iff.rfl rfl (bind_congr fun s => ?_)
  exact (apply_ite pure _ _ _).symm

end

/-- **The next page.** -/
theorem getNextValidPageAddress_computes (address : NxU64) :
    ∃ r, Computes (fun arith => getNextValidPageAddress arith lib address p) r ∧
      IsNextPage lib p (alignDown address p) r := by
  have hcur : p.toNat ∣ (alignDown address p).toNat := Align.dvd_and_not_mask hp
  by_cases hfits : (alignDown address p).toNat + p.toNat < 2 ^ 64
  · obtain ⟨hnextDvd, hlt, hle⟩ := pageAbove_spec lib hp hcur hfits
    by_cases hvalid : lib.isPageValid (alignDown address p + p) p = true
    · refine ⟨alignDown address p + p, ?_, IsNextPage.of_least ⟨hnextDvd, hvalid⟩ hlt hle⟩
      intro m _ _ arith harith
      simp only [getNextValidPageAddress_eq hp hcached harith hfits, if_pos hvalid]
    obtain ⟨best, hbest, hfound⟩ := nextSearch_computes hp hnextDvd hvalid
    refine ⟨if best = maxUint64 then alignDown address p else best, ?_, ?_⟩
    · intro m _ _ arith harith
      have hbest' : lib.descriptors.foldlM (nextStep arith (alignDown address p + p) p) maxUint64 =
          pure best := hbest arith harith
      simp only [getNextValidPageAddress_eq hp hcached harith hfits, if_neg hvalid, hbest', pure_bind]
    · rcases hfound with ⟨hmax, hnone⟩ | ⟨hne, hpage, hge, hleast⟩
      · rw [if_pos hmax]
        exact IsNextPage.of_none fun q hq hcurq => hnone q hq (hle q hq hcurq)
      · have hcurbest : alignDown address p < best := by
          rw [BitVec.lt_def] at hlt ⊢
          exact hlt.trans_le hge
        rw [if_neg hne]
        exact IsNextPage.of_least hpage hcurbest fun q hq hcurq => hleast q hq (hle q hq hcurq)
  · have hguard : alignDown address p > maxUint64 - p := by
      have hpos := hp.pos
      rw [gt_iff_lt, BitVec.lt_def, toNat_maxUint64_sub]
      omega
    refine ⟨alignDown address p, ?_, IsNextPage.of_none fun q hq hlt => ?_⟩
    · intro m _ _ arith harith
      simp only [getNextValidPageAddress, if_neg hcached, alignDown_exact harith address hp,
        guard_exact harith, pure_bind, if_pos hguard]
    · have hle := Align.add_le_of_lt hcur hq.1 (BitVec.lt_def.1 hlt)
      have hq' := q.isLt
      omega

/-- **The previous page.** -/
theorem getPreviousValidPageAddress_computes (address : NxU64) :
    ∃ r, Computes (fun arith => getPreviousValidPageAddress arith lib address p) r ∧
      IsPreviousPage lib p (alignDown address p) r := by
  have hcur : p.toNat ∣ (alignDown address p).toNat := Align.dvd_and_not_mask hp
  by_cases hfits : p.toNat ≤ (alignDown address p).toNat
  · obtain ⟨hprevDvd, hlt, hle⟩ := pageBelow_spec lib hp hcur hfits
    by_cases hvalid : lib.isPageValid (alignDown address p - p) p = true
    · refine ⟨alignDown address p - p, ?_, IsPreviousPage.of_greatest ⟨hprevDvd, hvalid⟩ hlt hle⟩
      intro m _ _ arith harith
      simp only [getPreviousValidPageAddress_eq hp hcached harith hfits, if_pos hvalid]
    obtain ⟨s, hs, hfound⟩ := previousSearch_computes lib hp hprevDvd
    refine ⟨if s.2 = true then s.1 else alignDown address p, ?_, ?_⟩
    · intro m _ _ arith harith
      have hs' : lib.descriptors.foldlM (previousStep arith (alignDown address p - p) p)
          (0, false) = pure s := hs arith harith
      simp only [getPreviousValidPageAddress_eq hp hcached harith hfits, if_neg hvalid, hs', pure_bind]
    · rcases hfound with ⟨hnone, hall⟩ | ⟨hsome, hpage, hge, hgreatest⟩
      · rw [if_neg (by rw [hnone]; exact Bool.false_ne_true)]
        exact IsPreviousPage.of_none fun q hq hqcur => hall q hq (hle q hq hqcur)
      · have hbestcur : s.1 < alignDown address p := by
          rw [BitVec.lt_def] at hlt ⊢
          exact Nat.lt_of_le_of_lt hge hlt
        rw [if_pos hsome]
        exact IsPreviousPage.of_greatest hpage hbestcur fun q hq hqcur =>
          hgreatest q hq (hle q hq hqcur)
  · have hguard : alignDown address p < p := Nat.lt_of_not_le hfits
    refine ⟨alignDown address p, ?_, IsPreviousPage.of_none fun q hq hlt => ?_⟩
    · intro m _ _ arith harith
      simp only [getPreviousValidPageAddress, if_neg hcached, alignDown_exact harith address hp,
        pure_bind, if_pos hguard]
    · have hle := Align.add_le_of_lt hq.1 hcur (BitVec.lt_def.1 hlt)
      omega

end

/-- **Page navigation in NexusMemLib is exact.**  For a cached map that is not empty,
    the next page is the least valid page above the current one, and the previous
    page the greatest below it, or the current page if there is none; and in the
    checked arithmetic the functions return the same pages, so that no addition,
    subtraction or shift on the way wraps around. -/
theorem page_navigation_exact (lib : MemLib) (pageSize address : NxU64) (hp : PowTwo pageSize)
    (hmap : lib.descriptors ≠ []) :
    IsNextPage lib pageSize (alignDown address pageSize)
        (lib.getNextValidPageAddress address pageSize) ∧
      IsPreviousPage lib pageSize (alignDown address pageSize)
        (lib.getPreviousValidPageAddress address pageSize) ∧
      (alignDown address pageSize).toNat = address.toNat - address.toNat % pageSize.toNat ∧
      getNextValidPageAddress Checked.checked lib address pageSize =
        some (lib.getNextValidPageAddress address pageSize) ∧
      getPreviousValidPageAddress Checked.checked lib address pageSize =
        some (lib.getPreviousValidPageAddress address pageSize) := by
  have hcached : ¬ (pageSize = 0 ∨ lib.gMemMap.isNone = true ∨ lib.gDescSize = 0) := by
    rintro (hzero | huncached)
    · exact hp.ne_zero hzero
    · exact hmap (descriptors_eq_nil huncached)
  obtain ⟨next, hnext, hleast⟩ := getNextValidPageAddress_computes hp hcached address
  obtain ⟨previous, hprevious, hgreatest⟩ := getPreviousValidPageAddress_computes hp hcached address
  have hnext' : lib.getNextValidPageAddress address pageSize = next := hnext.wrapping
  have hprevious' : lib.getPreviousValidPageAddress address pageSize = previous :=
    hprevious.wrapping
  rw [hnext', hprevious']
  exact ⟨hleast, hgreatest, toNat_alignDown hp address, hnext.checked, hprevious.checked⟩

/-- Over the gaps of the map: from boot services data up to the device, and from
    conventional memory down to it. -/
theorem page_navigation_exact_unsorted :
    IsNextPage unsortedLib 256 (alignDown 0x1FFF 256)
      (unsortedLib.getNextValidPageAddress 0x1FFF 256) ∧
    unsortedLib.getNextValidPageAddress 0x1FFF 256 = 0x3000 ∧
    IsPreviousPage unsortedLib 256 (alignDown 0x9034 256)
      (unsortedLib.getPreviousValidPageAddress 0x9034 256) ∧
    unsortedLib.getPreviousValidPageAddress 0x9034 256 = 0x3F00 := by
  have hmap : unsortedLib.descriptors ≠ [] := by
    rw [unsortedLib_descriptors]
    exact List.cons_ne_nil _ _
  exact ⟨(page_navigation_exact unsortedLib 256 0x1FFF ⟨8, rfl⟩ hmap).1, by decide +kernel,
    (page_navigation_exact unsortedLib 256 0x9034 ⟨8, rfl⟩ hmap).2.1, by decide +kernel⟩

end UefiNexus
