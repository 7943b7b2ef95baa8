/-
  Page navigation visits the valid blocks.

  The pages of PageMem are blocks of 256 bytes.  `Holds desc p`: the block at `p`
  lies in the extent of a browsable descriptor, computed without wrap-around.
  With descriptors that start at multiples of 4 KiB none of the exceptions of the
  two searches applies (`nextPage_cases`, `previousPage_cases`).
-/
import UefiNexus.PageMem.Actions
import UefiNexus.Proof.PageExact

namespace UefiNexus

/-! ## Blocks -/

/-- The descriptor is browsable and holds the 256 bytes at `p`. -/
def Holds (desc : NxMemoryDescriptor) (p : ℕ) : Prop :=
  isDescriptorValid desc = true ∧ desc.physicalStart.toNat ≤ p ∧
    p + 256 ≤ desc.physicalStart.toNat + (desc.numberOfPages <<< 12).toNat ∧
    desc.physicalStart.toNat + (desc.numberOfPages <<< 12).toNat < 2 ^ 64

/-- The valid blocks of the map: the multiples of 256 whose range is valid. -/
def Block (map : PageMemAddressMap) (p : NxU64) : Prop :=
  256 ∣ p.toNat ∧ pageCoreIsRangeValid map p pageSize = true

/-- The descriptor starts at a multiple of 4 KiB. -/
def StartAligned (desc : NxMemoryDescriptor) : Prop := 4096 ∣ desc.physicalStart.toNat

theorem pageSize_powTwo : Align.PowTwo pageSize := ⟨8, rfl⟩

/-- The size of a descriptor is a multiple of 4 KiB. -/
theorem dvd_size (pages : NxU64) : 4096 ∣ (pages <<< 12).toNat := by
  have : (pages <<< 12).toNat = pages.toNat * 4096 % 2 ^ 64 := by
    rw [BitVec.toNat_shiftLeft, Nat.shiftLeft_eq]
  rw [this]; omega

/-- The map's descriptors start at multiples of 4 KiB. -/
def MapAligned (map : PageMemAddressMap) : Prop :=
  ∀ ds, map.descriptors = some ds → ∀ desc ∈ ds, StartAligned desc

section
variable {map : PageMemAddressMap} {ds : List NxMemoryDescriptor} {A : NxU64}

/-- **The valid blocks** are those a descriptor holds. -/
theorem block_iff_holds (hmap : map.descriptors = some ds) {p : NxU64} :
    Block map p ↔ 256 ∣ p.toNat ∧ ∃ desc ∈ ds, Holds desc p.toNat :=
  page_iff pageSize_powTwo hmap

theorem not_block_of_none (hmap : map.descriptors = none) (p : NxU64) : ¬ Block map p := by
  rintro ⟨-, h⟩
  simp [pageCoreIsRangeValid, hmap] at h

/-- A descriptor that holds page 0 holds the next block, too. -/
theorem Holds.succ_zero {desc : NxMemoryDescriptor} (h : Holds desc 0) : Holds desc 256 := by
  have hsize := dvd_size desc.numberOfPages
  obtain ⟨hv, h1, h2, h3⟩ := h
  exact ⟨hv, by omega, by omega, h3⟩

/-! ## The searches -/

/-- A descriptor that starts at a multiple of 4 KiB starts two blocks below the
    end of the address space. -/
theorem StartAligned.low {desc : NxMemoryDescriptor} (h : StartAligned desc) :
    desc.physicalStart.toNat + 2 * 256 ≤ 2 ^ 64 := by
  have hlt := desc.physicalStart.isLt
  simp only [StartAligned] at h
  omega

theorem StartAligned.not_roundsToLast {desc : NxMemoryDescriptor} (h : StartAligned desc) :
    ¬ RoundsToLast pageSize desc := by
  rintro ⟨-, hfrom, -⟩
  exact absurd h.low (Nat.not_le.2 hfrom)

theorem StartAligned.not_roundsToZero {desc : NxMemoryDescriptor} (h : StartAligned desc) :
    ¬ RoundsToZero pageSize desc := by
  rintro ⟨-, hfrom, -⟩
  have hlow := h.low
  have hsize : pageSize.toNat = 256 := rfl
  omega

/-- The search upwards is right, except that the fast path takes the last page of
    the address space for a valid one. -/
theorem nextPage_or_last {ds : List NxMemoryDescriptor} (hstarts : ∀ desc ∈ ds, StartAligned desc)
    (hA : 256 ∣ A.toNat) :
    NextPage ⟨some ds⟩ pageSize A (pageCoreGetNextValidPageAddress ⟨some ds⟩ A pageSize) ∨
      (∀ q, Block ⟨some ds⟩ q → ¬ A < q) ∧
        pageCoreGetNextValidPageAddress ⟨some ds⟩ A pageSize = A + pageSize ∧
        A < A + pageSize ∧ (A + pageSize).toNat + 256 = 2 ^ 64 := by
  have hsize : pageSize.toNat = 256 := rfl
  have hend := add_le_of_dvd pageSize_powTwo hA
  rcases Nat.lt_trichotomy (A.toNat + 2 * pageSize.toNat) (2 ^ 64) with hlow | hlast | hover
  · refine Or.inl ((nextPage_low pageSize_powTwo hA hlow).2 ⟨?_, ?_⟩)
    · rintro ⟨desc, hdesc, hz, -⟩
      exact absurd hz (hstarts desc hdesc).not_roundsToZero
    · rintro ⟨desc, hdesc, hl⟩
      exact absurd hl (hstarts desc hdesc).not_roundsToLast
  · obtain ⟨hafter, -⟩ := toNat_pageAfter pageSize_powTwo hlast.le
    have hn : (A + pageSize).toNat + 256 = 2 ^ 64 := by omega
    by_cases hfast : isPageValid ⟨some ds⟩ (A + pageSize) pageSize = true
    · exact Or.inr ⟨fun q hq => not_page_above pageSize_powTwo hA hlast.ge hq,
        nextPage_fast pageSize_powTwo hA hlast.le hfast, BitVec.lt_def.2 (by omega), hn⟩
    · refine Or.inl ((nextPage_lastButOne pageSize_powTwo hA hlast).2 fun desc hdesc hu => ?_)
      refine ⟨not_not.1 fun hno => hfast ?_, (hstarts desc hdesc).not_roundsToLast,
        fun h => (hstarts desc hdesc).not_roundsToZero h.1⟩
      -- a descriptor that does not overflow makes the fast path accept the last page
      have hlow := (hstarts desc hdesc).low
      refine (isPageValid_last pageSize_powTwo rfl hn).2 ⟨desc, hdesc, hu, hno, ?_⟩
      rw [BitVec.le_def]
      omega
  · refine Or.inl (nextPage_last pageSize_powTwo hA (Nat.le_antisymm hend ?_))
    omega

/-- **The next page** is the least block above the page; without one it is the
    page itself or a page that is not valid. -/
theorem nextPage_cases (hal : MapAligned map) (hA : 256 ∣ A.toNat) :
    (Block map (pageCoreGetNextValidPageAddress map A pageSize) ∧
      A.toNat < (pageCoreGetNextValidPageAddress map A pageSize).toNat ∧
      ∀ q, Block map q → A.toNat < q.toNat →
        (pageCoreGetNextValidPageAddress map A pageSize).toNat ≤ q.toNat) ∨
    ((∀ q, Block map q → ¬ A.toNat < q.toNat) ∧
      (pageCoreGetNextValidPageAddress map A pageSize = A ∨
        ¬ Block map (pageCoreGetNextValidPageAddress map A pageSize) ∧
          256 ∣ (pageCoreGetNextValidPageAddress map A pageSize).toNat)) := by
  rcases map with ⟨_ | ds⟩
  · exact Or.inr ⟨fun q hq => absurd hq (not_block_of_none rfl q), Or.inl rfl⟩
  rcases nextPage_or_last (hal ds rfl) hA with
    (⟨hpage, hlt, hleast⟩ | ⟨hnone, hr⟩) | ⟨hnone, hr, hlt, hn⟩
  · exact Or.inl ⟨hpage, BitVec.lt_def.1 hlt,
      fun q hq hAq => BitVec.le_def.1 (hleast q hq (BitVec.lt_def.2 hAq))⟩
  · exact Or.inr ⟨fun q hq hAq => hnone q hq (BitVec.lt_def.2 hAq), Or.inl hr⟩
  · rw [hr]
    exact Or.inr ⟨fun q hq hAq => hnone q hq (BitVec.lt_def.2 hAq),
      Or.inr ⟨fun hb => hnone _ hb hlt, by omega⟩⟩

/-- **The previous page** is the greatest block below the page; without one it is
    the page itself. -/
theorem previousPage_cases (hal : MapAligned map) (hA : 256 ∣ A.toNat) :
    (Block map (pageCoreGetPreviousValidPageAddress map A pageSize) ∧
      (pageCoreGetPreviousValidPageAddress map A pageSize).toNat < A.toNat ∧
      ∀ q, Block map q → q.toNat < A.toNat →
        q.toNat ≤ (pageCoreGetPreviousValidPageAddress map A pageSize).toNat) ∨
    ((∀ q, Block map q → ¬ q.toNat < A.toNat) ∧
      pageCoreGetPreviousValidPageAddress map A pageSize = A) := by
  rcases map with ⟨_ | ds⟩
  · exact Or.inr ⟨fun q hq => absurd hq (not_block_of_none rfl q), rfl⟩
  have hstarts := hal ds rfl
  have hsize : pageSize.toNat = 256 := rfl
  have hprevious : PreviousPage ⟨some ds⟩ pageSize A
      (pageCoreGetPreviousValidPageAddress ⟨some ds⟩ A pageSize) := by
    by_cases hzero : A = 0
    · rw [hzero]
      exact previousPage_zero
    have hle : pageSize.toNat ≤ A.toNat := Nat.le_of_dvd (by bv_omega) hA
    rw [previousPage_from pageSize_powTwo hA hle]
    refine or_iff_not_imp_left.2 fun hbefore => ⟨fun desc hdesc hz _ => ?_, ?_⟩
    · exact absurd hz (hstarts desc hdesc).not_roundsToZero
    · -- page 0 is never the only one: its descriptor holds a higher page, too
      rintro ⟨h0, honly⟩
      obtain ⟨-, desc, hdesc, hheld⟩ := (block_iff_holds rfl).1 h0
      have h256 : Block ⟨some ds⟩ 256 :=
        (block_iff_holds rfl).2 ⟨by decide, desc, hdesc, hheld.succ_zero⟩
      have hA256 : A ≠ 256 := by
        rintro rfl
        exact hbefore h0
      have hlt : (256 : NxU64) < A := by
        rw [BitVec.lt_def]
        bv_omega
      exact absurd (honly 256 h256 hlt) (by decide)
  rcases hprevious with ⟨hpage, hlt, hgreatest⟩ | ⟨hnone, hr⟩
  · exact Or.inl ⟨hpage, BitVec.lt_def.1 hlt,
      fun q hq hqA => BitVec.le_def.1 (hgreatest q hq (BitVec.lt_def.2 hqA))⟩
  · exact Or.inr ⟨fun q hq hqA => hnone q hq (BitVec.lt_def.2 hqA), hr⟩

end

/-! ## The actions -/

/-- The page state on a new page. -/
def onPage (pageState : PageMemPageState) (address : NxU64) : PageMemPageState :=
  { pageState with
    cursorState := { pageState.cursorState with address := address, offset := 0 }
    needsRedraw := true }

/-- `p` is the least block above `A`. -/
def LeastAbove (map : PageMemAddressMap) (A p : NxU64) : Prop :=
  Block map p ∧ A.toNat < p.toNat ∧ ∀ q, Block map q → A.toNat < q.toNat → p.toNat ≤ q.toNat

/-- `p` is the greatest block below `A`. -/
def GreatestBelow (map : PageMemAddressMap) (A p : NxU64) : Prop :=
  Block map p ∧ p.toNat < A.toNat ∧ ∀ q, Block map q → q.toNat < A.toNat → q.toNat ≤ p.toNat

section
variable {pageState : PageMemPageState}

/-- Another block is a page to move to. -/
theorem pageMemMoveToPage_block {p : NxU64} (hp : Block pageState.addressMap p)
    (hne : p ≠ pageState.cursorState.address) :
    pageMemMoveToPage pageState p = onPage pageState p :=
  if_pos ⟨hne, hp.2⟩

theorem pageDown_cases (hal : MapAligned pageState.addressMap)
    (hA : 256 ∣ pageState.cursorState.address.toNat) :
    (∃ p, LeastAbove pageState.addressMap pageState.cursorState.address p ∧
      pageMemActionPageDown pageState = (.success, onPage pageState p)) ∨
    ((∀ q, Block pageState.addressMap q → ¬ pageState.cursorState.address.toNat < q.toNat) ∧
      pageMemActionPageDown pageState = (.success, pageState)) := by
  rw [pageMemActionPageDown]
  rcases nextPage_cases hal hA with h | ⟨hnone, hr⟩
  · refine Or.inl ⟨_, h, ?_⟩
    rw [pageMemMoveToPage_block h.1 fun heq => Nat.lt_irrefl _ (heq ▸ h.2.1)]
  · refine Or.inr ⟨hnone, ?_⟩
    rw [pageMemMoveToPage, if_neg]
    rintro ⟨hne, hv⟩
    rcases hr with hr | ⟨hb, hdvd⟩
    · exact hne hr
    · exact hb ⟨hdvd, hv⟩

theorem pageUp_cases (hal : MapAligned pageState.addressMap)
    (hA : 256 ∣ pageState.cursorState.address.toNat) :
    (∃ p, GreatestBelow pageState.addressMap pageState.cursorState.address p ∧
      pageMemActionPageUp pageState = (.success, onPage pageState p)) ∨
    ((∀ q, Block pageState.addressMap q → ¬ q.toNat < pageState.cursorState.address.toNat) ∧
      pageMemActionPageUp pageState = (.success, pageState)) := by
  rw [pageMemActionPageUp]
  rcases previousPage_cases hal hA with h | ⟨hnone, hr⟩
  · refine Or.inl ⟨_, h, ?_⟩
    rw [pageMemMoveToPage_block h.1 fun heq => Nat.lt_irrefl _ (heq ▸ h.2.1)]
  · refine Or.inr ⟨hnone, ?_⟩
    rw [pageMemMoveToPage, if_neg fun h => h.1 hr]

end

/-- The page state after page down. -/
def pageDown (pageState : PageMemPageState) : PageMemPageState := (pageMemActionPageDown pageState).2

/-- The page state after page up. -/
def pageUp (pageState : PageMemPageState) : PageMemPageState := (pageMemActionPageUp pageState).2

/-- Page down walks up the blocks of its map. -/
theorem pageDown_stepsUp {map : PageMemAddressMap} (hal : MapAligned map) :
    Search.StepsUp (fun p => ∃ q : NxU64, Block map q ∧ q.toNat = p)
      (fun s => s.cursorState.address.toNat) pageDown
      (fun s => s.addressMap = map ∧ 256 ∣ s.cursorState.address.toNat) := by
  refine ⟨?_, ?_, ?_⟩
  · rintro s ⟨rfl, hA⟩
    rcases pageDown_cases hal hA with ⟨p, hp, hd⟩ | ⟨-, hd⟩
    · simp only [pageDown, hd]; exact ⟨rfl, hp.1.1⟩
    · simp only [pageDown, hd]; exact ⟨trivial, hA⟩
  · rintro s ⟨rfl, hA⟩ ⟨_, ⟨q, hq, rfl⟩, hlt⟩
    rcases pageDown_cases hal hA with ⟨p, hp, hd⟩ | ⟨hnone, -⟩
    · simp only [pageDown, hd]
      refine ⟨⟨p, hp.1, rfl⟩, hp.2.1, ?_⟩
      rintro _ ⟨q', hq', rfl⟩ hlt'
      exact hp.2.2 q' hq' hlt'
    · exact absurd hlt (hnone q hq)
  · rintro s ⟨rfl, hA⟩ hnone
    rcases pageDown_cases hal hA with ⟨p, hp, -⟩ | ⟨-, hd⟩
    · exact absurd hp.2.1 (hnone _ ⟨p, hp.1, rfl⟩)
    · simp only [pageDown, hd]

/-- **Page navigation is exact.**  Page down moves to the least valid block above
    the page, and page up to the greatest one below it; without one they leave
    the page state alone.  Hence repeating page down visits every block above the
    page once, in ascending order, and stops; and page up undoes a page down that
    moved from a block. -/
theorem page_navigation (pageState : PageMemPageState) (hal : MapAligned pageState.addressMap)
    (hA : 256 ∣ pageState.cursorState.address.toNat) :
    ((∃ p, LeastAbove pageState.addressMap pageState.cursorState.address p ∧
        pageMemActionPageDown pageState = (.success, onPage pageState p)) ∨
      ((∀ q, Block pageState.addressMap q → ¬ pageState.cursorState.address.toNat < q.toNat) ∧
        pageMemActionPageDown pageState = (.success, pageState))) ∧
    ((∃ p, GreatestBelow pageState.addressMap pageState.cursorState.address p ∧
        pageMemActionPageUp pageState = (.success, onPage pageState p)) ∨
      ((∀ q, Block pageState.addressMap q → ¬ q.toNat < pageState.cursorState.address.toNat) ∧
        pageMemActionPageUp pageState = (.success, pageState))) ∧
    (∃ N,
      (∀ i j, i < j → j ≤ N → (pageDown^[i] pageState).cursorState.address.toNat <
        (pageDown^[j] pageState).cursorState.address.toNat) ∧
      (∀ n, N ≤ n → pageDown^[n] pageState = pageDown^[N] pageState) ∧
      ∀ p : NxU64, (∃ i, 1 ≤ i ∧ i ≤ N ∧ (pageDown^[i] pageState).cursorState.address = p) ↔
        Block pageState.addressMap p ∧ pageState.cursorState.address.toNat < p.toNat) ∧
    (Block pageState.addressMap pageState.cursorState.address →
      (pageDown pageState).cursorState.address ≠ pageState.cursorState.address →
        (pageUp (pageDown pageState)).cursorState.address = pageState.cursorState.address) := by
  refine ⟨pageDown_cases hal hA, pageUp_cases hal hA, ?_, ?_⟩
  · obtain ⟨N, hasc, hstay, hvisit⟩ := (pageDown_stepsUp hal).walk
      (fun p ⟨q, _, hq⟩ => hq ▸ q.isLt) pageState ⟨rfl, hA⟩
    refine ⟨N, hasc, hstay, fun p => ?_⟩
    have h := hvisit p.toNat
    constructor
    · rintro ⟨i, h1, hi, rfl⟩
      obtain ⟨⟨q, hq, heq⟩, hlt⟩ := h.1 ⟨i, h1, hi, rfl⟩
      rw [BitVec.eq_of_toNat_eq heq] at hq
      exact ⟨hq, hlt⟩
    · rintro ⟨hp, hlt⟩
      obtain ⟨i, h1, hi, heq⟩ := h.2 ⟨⟨p, hp, rfl⟩, hlt⟩
      exact ⟨i, h1, hi, BitVec.eq_of_toNat_eq heq⟩
  · intro hblock hmoved
    rcases pageDown_cases hal hA with ⟨p, hp, hd⟩ | ⟨-, hd⟩
    · -- the greatest block below the next one is the page itself
      simp only [pageDown, hd]
      have hal' : MapAligned (onPage pageState p).addressMap := hal
      rcases pageUp_cases hal' hp.1.1 with
        ⟨q, hq, hu⟩ | ⟨hnone, -⟩
      · simp only [pageUp, hu]
        have hle : pageState.cursorState.address.toNat ≤ q.toNat := hq.2.2 _ hblock hp.2.1
        refine BitVec.eq_of_toNat_eq (Nat.le_antisymm (Nat.not_lt.1 fun hlt => ?_) hle)
        exact absurd (hp.2.2 q hq.1 hlt) (Nat.not_le.2 hq.2.1)
      · exact absurd hp.2.1 (hnone _ hblock)
    · simp only [pageDown, hd] at hmoved
      exact absurd rfl hmoved

/-- Two overlapping descriptors above a gap, and one whose extent overflows. -/
def gapMap : PageMemAddressMap :=
  ⟨some [⟨.conventional, 0x9000, 2, 0, 7⟩, ⟨.mmio, 0xFFFFFFFFFFFFF000, 1, 0, 11⟩,
    ⟨.loaderData, 0x1000, 1, 0, 2⟩, ⟨.conventional, 0xA000, 3, 0, 7⟩]⟩

/-- The page above the gap, in the middle of a page of loader data. -/
def gapState : PageMemPageState :=
  ⟨.viewing, ⟨0x1F00, 0x40, 4⟩, gapMap, 2, true, ⟨0, 0, true, true, true, true⟩, false⟩

theorem page_navigation_gap :
    ∃ p, LeastAbove gapMap 0x1F00 p ∧
      pageMemActionPageDown gapState = (.success, onPage gapState p) := by
  have hal : MapAligned gapMap := by
    rintro ds hds
    obtain rfl := Option.some.inj hds
    simp only [StartAligned]
    decide
  rcases (page_navigation gapState hal (by decide)).1 with h | ⟨-, hd⟩
  · exact h
  · exact absurd hd (by decide)

end UefiNexus
