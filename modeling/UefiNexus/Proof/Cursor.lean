/-
  The cursor is on a cell.

  Every movement of the cursor puts it on a cell of the selected width, but
  goto: it keeps the low bits of the address it is given (`goto_onCell_iff`).
  With the cursor on a cell, a redraw highlights exactly one cell and an edit
  does not complain about the offset (`CursorOk`).  So a run is in order at all
  its keys exactly if every goto is given a multiple of the width.
-/
import UefiNexus.Lib.Align
import UefiNexus.Proof.Cells
import UefiNexus.Proof.Keys
import UefiNexus.Proof.Terminal

namespace UefiNexus

/-- The cursor is on a cell of its width. -/
structure OnCell (c : PageMemCursorState) : Prop where
  dvd : c.width.toNat ∣ c.offset.toNat
  le : c.offset.toNat + c.width.toNat ≤ 256

theorem pageSize_toNat : pageSize.toNat = 256 := rfl

/-- An offset that is cut off at the last cell and rounded down. -/
theorem onCell_of_round {address : NxU64} {width offset : NxUintn} (hw : WidthOk width)
    (hle : offset.toNat ≤ 256 - width.toNat) :
    OnCell ⟨address, offset &&& ~~~(width - 1), width⟩ := by
  have hle8 := hw.toNat_le
  have hround := Align.toNat_and_not_mask hw.powTwo (x := offset)
  have hmod := Nat.mod_le offset.toNat width.toNat
  constructor
  · simp only [hround]; exact Nat.dvd_sub_mod _
  · simp only [hround]; omega

/-- The offsets `PageCoreMoveCursor` rounds are at most the last cell's. -/
theorem clamp_le {width newOffset : NxUintn} (hw : WidthOk width) :
    (if newOffset > pageSize - (if width = 0 then 1 else width) then
        pageSize - (if width = 0 then 1 else width) else newOffset).toNat ≤ 256 - width.toNat := by
  have hlast : (pageSize - (if width = 0 then 1 else width)).toNat = 256 - width.toNat := by
    obtain rfl | rfl | rfl | rfl := hw <;> decide
  by_cases h : newOffset > pageSize - (if width = 0 then 1 else width)
  · rw [if_pos h, hlast]
  · rw [if_neg h]
    rw [gt_iff_lt, BitVec.lt_def, hlast] at h
    omega

theorem moveCursor_onCell {c : PageMemCursorState} (hw : WidthOk c.width) (delta : NxIntn) :
    OnCell (pageCoreMoveCursor c delta) := by
  have hround : ∀ x : NxUintn, (if c.width > 1 then x &&& ~~~(c.width - 1) else x) =
      x &&& ~~~(c.width - 1) := by
    intro x
    split_ifs with h
    · rfl
    · have h1 : c.width = 1 := by
        obtain h1 | h1 | h1 | h1 := hw
        · exact h1
        all_goals rw [h1] at h; exact absurd (by decide) h
      rw [h1]
      exact (BitVec.and_allOnes (x := x)).symm
  simp only [pageCoreMoveCursor, hround]
  exact onCell_of_round hw (clamp_le hw)

theorem setCursorWidth_onCell (c : PageMemCursorState) {width : NxUintn} (hw : WidthOk width) :
    (pageCoreSetCursorWidth c width).width = width ∧ OnCell (pageCoreSetCursorWidth c width) := by
  have hwidth : (if width = 0 then 1 else width) = width := by
    rw [if_neg]
    rintro rfl; exact absurd hw.powTwo.pos (by decide)
  have hle8 := hw.toNat_le
  have hdvd : width.toNat ∣ 256 := by
    obtain rfl | rfl | rfl | rfl := hw <;> decide
  have hmul := Align.dvd_and_not_mask hw.powTwo (x := c.offset)
  simp only [pageCoreSetCursorWidth, hwidth, true_and]
  by_cases h : c.offset &&& ~~~(width - 1) ≥ pageSize
  · have hlast : (pageSize - width).toNat = 256 - width.toNat := by
      obtain rfl | rfl | rfl | rfl := hw <;> decide
    constructor
    · simp only [if_pos h, hlast]; exact Nat.dvd_sub hdvd (Nat.dvd_refl _)
    · simp only [if_pos h, hlast]; omega
  · have hlt : (c.offset &&& ~~~(width - 1)).toNat < 256 := by
      rw [ge_iff_le, BitVec.le_def, pageSize_toNat] at h; omega
    constructor
    · simp only [if_neg h]; exact hmul
    · simp only [if_neg h]; exact Align.add_le_of_lt hmul hdvd hlt

/-- Goto keeps the address within the page. -/
theorem toNat_gotoOffset (address : NxU64) :
    (address - pageCoreAlignToPage address pageSize).toNat = address.toNat % 256 := by
  have hbase : (pageCoreAlignToPage address pageSize).toNat =
      address.toNat - address.toNat % 256 :=
    Align.toNat_and_not_mask (⟨8, rfl⟩ : Align.PowTwo pageSize)
  have hle := Nat.mod_le address.toNat 256
  rw [BitVec.toNat_sub_of_le (by rw [BitVec.le_def, hbase]; omega), hbase]
  omega

/-- **Goto puts the cursor on a cell** exactly if the width divides the address. -/
theorem goto_onCell_iff {c : PageMemCursorState} (hw : WidthOk c.width) (address : NxU64) :
    OnCell { c with
      address := pageCoreAlignToPage address pageSize
      offset := address - pageCoreAlignToPage address pageSize } ↔
    c.width.toNat ∣ address.toNat := by
  have hdvd : c.width.toNat ∣ 256 := by
    obtain h | h | h | h := hw <;> rw [h] <;> decide
  have hiff : c.width.toNat ∣ address.toNat % 256 ↔ c.width.toNat ∣ address.toNat :=
    Nat.dvd_mod_iff hdvd
  constructor
  · intro h
    have := h.dvd
    simp only [toNat_gotoOffset] at this
    exact hiff.1 this
  · intro h
    constructor
    · simp only [toNat_gotoOffset]; exact hiff.2 h
    · simp only [toNat_gotoOffset]
      exact Align.add_le_of_lt (hiff.2 h) hdvd (Nat.mod_lt _ (by decide))

theorem page_onCell {c : PageMemCursorState} (hw : WidthOk c.width) (address : NxU64) :
    OnCell { c with address := address, offset := 0 } := by
  have hle8 := hw.toNat_le
  exact ⟨⟨0, rfl⟩, by simp only [BitVec.ofNat_eq_ofNat, BitVec.toNat_ofNat]; omega⟩

/-! ## Runs -/

section
variable {W : Type} {a : AdapterManager W} {w w' : W} {key : NxUiKey}
  {pageState pageState' : PageMemPageState}

/-- A key leaves a supported width. -/
theorem CursorStep.widthOk {c c' : PageMemCursorState} (h : CursorStep a w key c c')
    (hw : WidthOk c.width) : WidthOk c'.width := by
  cases h with
  | stay => exact hw
  | move => exact hw
  | goto => exact hw
  | page => exact hw
  | width hwidth => rw [(setCursorWidth_onCell c hwidth).1]; exact hwidth

theorem OnCell.offset_lt {c : PageMemCursorState} (h : OnCell c) (hw : WidthOk c.width) :
    c.offset.toNat < 256 := by
  have hle := h.le
  have hpos := hw.powTwo.pos
  omega

/-- A key leaves the cursor on the page. -/
theorem CursorStep.offset_lt {c c' : PageMemCursorState} (h : CursorStep a w key c c')
    (hw : WidthOk c.width) (hlt : c.offset.toNat < 256) : c'.offset.toNat < 256 := by
  cases h with
  | stay => exact hlt
  | move => exact (moveCursor_onCell hw _).offset_lt hw
  | goto =>
    rw [toNat_gotoOffset]
    exact Nat.mod_lt _ (by decide)
  | page => exact (by decide : (0 : NxUintn).toNat < 256)
  | width hwidth =>
    obtain ⟨heq, hcell⟩ := setCursorWidth_onCell c hwidth
    exact hcell.offset_lt (by rw [heq]; exact hwidth)

/-- The next key, if it is goto and its prompt is committed, is given an address
    that is a multiple of the width. -/
def GotoOnCell (a : AdapterManager W) (pageState : PageMemPageState) (w : W) : Prop :=
  ∀ key w₁ address w₂, a.tui.readKey w = (some key, w₁) →
    IsCommand key pageState.cursorState.width .goto →
    gotoPrompt a.tui w₁ = (some (true, address), w₂) →
      pageState.cursorState.width.toNat ∣ address.toNat

/-- What a key that is served does to the cursor. -/
theorem serveKey_onCell (hserve : serveKey a pageState w = (some (.inl pageState'), w'))
    (hw : WidthOk pageState.cursorState.width) :
    WidthOk pageState'.cursorState.width ∧
    (OnCell pageState.cursorState → GotoOnCell a pageState w → OnCell pageState'.cursorState) := by
  obtain ⟨key, w₁, status, w₂, hread, hpress, -⟩ := serveKey_eq_inl hserve
  have hstep := (handleKeyPress_steps hpress).2
  refine ⟨hstep.widthOk hw, fun hcell hgoto => ?_⟩
  generalize pageState'.cursorState = c' at hstep
  cases hstep with
  | stay => exact hcell
  | move => exact moveCursor_onCell hw _
  | goto hcmd hprompt => exact (goto_onCell_iff hw _).2 (hgoto _ _ _ _ hread hcmd hprompt)
  | page address => exact page_onCell hw address
  | width hwidth => exact (setCursorWidth_onCell _ hwidth).2

/-- A goto whose prompt is committed leaves the cursor at the address. -/
theorem handleKeyPress_goto {status : NxStatus} {address : NxU64} {w₁ : W}
    (hcmd : IsCommand key pageState.cursorState.width .goto)
    (hprompt : gotoPrompt a.tui w = (some (true, address), w₁))
    (h : pageMemControllerHandleKeyPress key pageState a w = (some (status, pageState'), w')) :
    pageState'.cursorState = (gotoState pageState address).cursorState := by
  rw [hcmd.handleKeyPress, handleCommand, hcmd.command] at h
  obtain ⟨⟨status₁, pageState₁⟩, w₂, hgoto, h⟩ := Prog.bind_eq_some.1 h
  rw [(updateMovedPage_sameView h).cursor]
  rw [pageMemActionGotoAddress, Prog.bind_of_some hprompt] at hgoto
  obtain ⟨_, w₃, -, hgoto⟩ := Prog.bind_eq_some.1 hgoto
  obtain ⟨hgoto, -⟩ := Prog.pure_eq_some.1 hgoto
  cases hgoto
  rfl

/-- If serving the next key leaves the cursor on a cell, the key is no goto to an
    address that is no multiple of the width. -/
theorem gotoOnCell_of_serveKey (hserve : serveKey a pageState w = (some (.inl pageState'), w'))
    (hw : WidthOk pageState.cursorState.width) (hcell : OnCell pageState'.cursorState) :
    GotoOnCell a pageState w := by
  intro key w₁ address w₂ hread hcmd hprompt
  obtain ⟨key', w₁', status, w₃, hread', hpress, -⟩ := serveKey_eq_inl hserve
  rw [hread] at hread'
  cases hread'
  rw [handleKeyPress_goto hcmd hprompt hpress] at hcell
  exact (goto_onCell_iff hw address).1 hcell

end

/-! ## The cells that are highlighted -/

theorem countP_eq_one {n k : ℕ} {p : ℕ → Bool} (hk : k < n) (hp : ∀ i < n, p i = true ↔ i = k) :
    (List.range' 0 n).countP p = 1 := by
  have hcongr : (List.range' 0 n).countP p = (List.range' 0 n).count k := by
    rw [List.count]
    refine List.countP_congr fun i hi => ?_
    rw [hp i (by simpa using hi), beq_iff_eq]
  rw [hcongr]
  exact List.count_eq_one_of_mem List.nodup_range' (by simpa using hk)

theorem OnCell.countP_eq_one {c : PageMemCursorState} (h : OnCell c) (hw : WidthOk c.width) :
    ((List.range' 0 (cellCount c.width)).countP fun k => cellOffset c.width k = c.offset) = 1 := by
  obtain ⟨k, hk⟩ := h.dvd
  have hpos := hw.powTwo.pos
  have hle := h.le
  have hmul := hw.cellCount_mul
  rw [hk, Nat.mul_comm] at hle
  have hlt : k < cellCount c.width := by
    by_contra hge
    have := Nat.mul_le_mul_right c.width.toNat (Nat.le_of_not_lt hge)
    omega
  refine UefiNexus.countP_eq_one hlt fun i hi => ?_
  rw [decide_eq_true_eq, ← BitVec.toNat_inj, toNat_cellOffset hw hi, hk, Nat.mul_comm]
  exact Nat.mul_right_inj (Nat.ne_of_gt hpos)

/-- Every complaint about an offset in the second list of calls is in the first. -/
def Complains {W : Type} (p p' : W × List AdapterCall) : Prop :=
  ∀ status, .reportError offsetNotAligned status ∈ p'.2 →
    .reportError offsetNotAligned status ∈ p.2

instance {W : Type} : IsPreorder (W × List AdapterCall) Complains where
  refl _ _ h := h
  trans _ _ _ h h' status hmem := h status (h' status hmem)

/-- An edit does not complain about the offset of a cursor on a cell. -/
theorem editValue_aligned {W : Type} (a : AdapterManager W) {pageState : PageMemPageState}
    (h : OnCell pageState.cursorState) :
    Prog.Sat Complains (pageMemActionEditValue pageState (traced a)) := by
  have ha : (traced a).Serves (fun c => ∀ status, c ≠ .reportError offsetNotAligned status)
      (Prog.Sat Complains) := by
    refine (a.serves_true _).traced Prog.Sat.closed Prog.Sat.hang fun c m hc _ p status hmem => ?_
    obtain hmem | hmem := List.mem_append.1 hmem
    · exact hmem
    · exact absurd (List.mem_singleton.1 hmem).symm (hc status)
  refine ha.pageMemActionEditValue pageState ?_ ?_ ?_ ?_
  · rintro c hsilent status rfl
    exact hsilent
  · rintro message status hne status' ⟨⟩
    exact hne rfl
  · rintro value status ⟨⟩
  · intro hoff
    refine absurd ?_ hoff
    rw [← BitVec.toNat_inj, BitVec.toNat_umod]
    exact Nat.mod_eq_zero_of_dvd h.dvd

/-- The cursor is on a cell, a redraw passes over all cells of the page and
    highlights exactly one, and an edit does not complain about the offset. -/
structure CursorOk {W : Type} (a : AdapterManager W) (pageState : PageMemPageState) : Prop where
  onCell : OnCell pageState.cursorState
  rows : drawMemoryRows a.tui a.memory pageState =
    Prog.each (fun k => drawMemoryStep a.tui a.memory pageState
      (cellOffset pageState.cursorState.width k))
      (List.range' 0 (cellCount pageState.cursorState.width))
  highlight : ∀ p p', pageMemViewDrawPage (traced a).tui (traced a).memory pageState p =
    (some (), p') → highlights p' = highlights p + 1
  aligned : Prog.Sat Complains (pageMemActionEditValue pageState (traced a))

theorem OnCell.cursorOk {W : Type} (a : AdapterManager W) {pageState : PageMemPageState}
    (h : OnCell pageState.cursorState) (hw : WidthOk pageState.cursorState.width) :
    CursorOk a pageState where
  onCell := h
  rows := drawMemoryRows_eq a.tui a.memory pageState hw
  highlight p p' hdraw := by
    have := drawPage_adds pageState hw p () p' hdraw
    rwa [h.countP_eq_one hw] at this
  aligned := editValue_aligned a h

/-! ## The whole run -/

section
variable {W : Type} (a : AdapterManager W) (pageState : PageMemPageState) (w : W)

/-- The cursor when the first key is read. -/
theorem runVisits_zero_cursor {s : PageMemPageState} {v : W}
    (h : runVisits a 0 pageState w = some (s, v)) : ∃ address, s.cursorState = ⟨address, 0, 1⟩ := by
  obtain ⟨status, s₁, v₁, hinit, hok, htop⟩ := runVisits_zero.1 h
  obtain ⟨w₁, descriptors, w₂, -, -, -, hcursor, -⟩ := pageMemControllerInit_success hinit hok
  rw [redrawIfNeeded_eq htop, hcursor]
  exact ⟨_, rfl⟩

/-- The width is supported all along a run. -/
theorem runVisits_widthOk :
    ∀ n s v, runVisits a n pageState w = some (s, v) → WidthOk s.cursorState.width
  | 0, s, v, h => by
    obtain ⟨address, hcursor⟩ := runVisits_zero_cursor a pageState w h
    rw [hcursor]
    exact Or.inl rfl
  | n + 1, s, v, h => by
    obtain ⟨s₁, v₁, s₂, v₂, hvisit, hserve, htop⟩ := runVisits_succ.1 h
    rw [redrawIfNeeded_eq htop]
    exact (serveKey_onCell hserve (runVisits_widthOk n s₁ v₁ hvisit)).1

/-- The cursor stays on the page all along a run. -/
theorem runVisits_offset_lt :
    ∀ n s v, runVisits a n pageState w = some (s, v) → s.cursorState.offset.toNat < 256
  | 0, s, v, h => by
    obtain ⟨address, hcursor⟩ := runVisits_zero_cursor a pageState w h
    rw [hcursor]
    exact (by decide : (0 : NxUintn).toNat < 256)
  | n + 1, s, v, h => by
    obtain ⟨s₁, v₁, s₂, v₂, hvisit, hserve, htop⟩ := runVisits_succ.1 h
    obtain ⟨key, v₃, status, v₄, -, hpress, -⟩ := serveKey_eq_inl hserve
    rw [redrawIfNeeded_eq htop]
    exact (handleKeyPress_steps hpress).2.offset_lt
      (runVisits_widthOk a pageState w n s₁ v₁ hvisit) (runVisits_offset_lt n s₁ v₁ hvisit)

/-- **The cursor is on a cell at every key** of a run, and an edit and a redraw
    are in order, exactly if every goto that is served is given a multiple of the
    width. -/
theorem cursorOk_iff :
    (∀ n s v, runVisits a n pageState w = some (s, v) → CursorOk a s) ↔
    ∀ n s v, runVisits a n pageState w = some (s, v) →
      (runVisits a (n + 1) pageState w).isSome → GotoOnCell a s v := by
  have hwidth := runVisits_widthOk a pageState w
  constructor
  · intro h n s v hvisit hnext
    obtain ⟨⟨s', v'⟩, hnext⟩ := Option.isSome_iff_exists.1 hnext
    have hcell := (h _ _ _ hnext).onCell
    obtain ⟨s₁, v₁, s₂, v₂, hvisit', hserve, htop⟩ := runVisits_succ.1 hnext
    rw [hvisit] at hvisit'
    cases hvisit'
    rw [redrawIfNeeded_eq htop] at hcell
    exact gotoOnCell_of_serveKey hserve (hwidth n s v hvisit) hcell
  · intro h n
    have hcell : ∀ s v, runVisits a n pageState w = some (s, v) → OnCell s.cursorState := by
      induction n with
      | zero =>
        intro s v hvisit
        obtain ⟨address, hcursor⟩ := runVisits_zero_cursor a pageState w hvisit
        rw [hcursor]
        exact @page_onCell ⟨0, 0, 1⟩ (Or.inl rfl) address
      | succ n ih =>
        intro s v hvisit
        have hsome := Option.isSome_of_eq_some hvisit
        obtain ⟨s₁, v₁, s₂, v₂, hvisit₁, hserve, htop⟩ := runVisits_succ.1 hvisit
        rw [redrawIfNeeded_eq htop]
        exact (serveKey_onCell hserve (hwidth n s₁ v₁ hvisit₁)).2 (ih s₁ v₁ hvisit₁)
          (h n s₁ v₁ hvisit₁ hsome)
    intro s v hvisit
    exact (hcell s v hvisit).cursorOk a (hwidth n s v hvisit)

end

/-- A width of 4, and goto `0x1001`: the third key is awaited with the cursor
    inside a cell. -/
theorem goto_inside_cell :
    ¬ ∀ n s v, runVisits (deskAdapters deskMap) n deskState
      (desk [charKey '4', charKey 'g'] [0x1001]) = some (s, v) →
        CursorOk (deskAdapters deskMap) s := by
  intro h
  have hcursor : (runVisits (deskAdapters deskMap) 2 deskState
      (desk [charKey '4', charKey 'g'] [0x1001])).map (fun p => p.1.cursorState) =
        some ⟨0x1000, 1, 4⟩ := by
    decide +kernel
  obtain ⟨⟨s, v⟩, hvisit, hcursor⟩ := Option.map_eq_some_iff.1 hcursor
  have hdvd := (h 2 s v hvisit).onCell.dvd
  rw [show s.cursorState = ⟨0x1000, 1, 4⟩ from hcursor] at hdvd
  exact absurd hdvd (by decide)

end UefiNexus
