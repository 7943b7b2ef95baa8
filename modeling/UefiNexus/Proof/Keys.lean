/-
  What a key does to the page state.

  `CursorStep a w key c c'`: the ways in which a key may change the cursor — not
  at all, by an arrow, by goto, by a page command, by a width.  A key does one
  of these and leaves the address map alone (`handleKeyPress_steps`), so what a
  run does to the page state is a sequence of such steps (`serveKey_eq_inl`).
-/
import Mathlib.Tactic.SplitIfs
import UefiNexus.Proof.Outcomes
import UefiNexus.Proof.Access

namespace UefiNexus

variable {W : Type} {a : AdapterManager W} {key : NxUiKey} {status : NxStatus}
  {pageState pageState' : PageMemPageState} {w w' : W}

/-- The ways in which a key may change the cursor. -/
inductive CursorStep (a : AdapterManager W) (w : W) (key : NxUiKey) (c : PageMemCursorState) :
    PageMemCursorState → Prop where
  | stay : CursorStep a w key c c
  | move (h : keyDelta key c.width ≠ 0) :
    CursorStep a w key c (pageCoreMoveCursor c (keyDelta key c.width))
  | goto {address : NxU64} {w₁ : W} (h : IsCommand key c.width .goto)
    (hprompt : gotoPrompt a.tui w = (some (true, address), w₁)) :
    CursorStep a w key c
      { c with
        address := pageCoreAlignToPage address pageSize
        offset := address - pageCoreAlignToPage address pageSize }
  | page (address : NxU64) : CursorStep a w key c { c with address := address, offset := 0 }
  | width {width : NxUintn} (h : WidthOk width) :
    CursorStep a w key c (pageCoreSetCursorWidth c width)

/-- The cursor, the address map, the mode and the redraw flag are the same. -/
structure SameView (s s' : PageMemPageState) : Prop where
  cursor : s'.cursorState = s.cursorState
  map : s'.addressMap = s.addressMap
  mode : s'.currentState = s.currentState
  redraw : s'.needsRedraw = s.needsRedraw

theorem SameView.refl (s : PageMemPageState) : SameView s s := ⟨rfl, rfl, rfl, rfl⟩

theorem updatePageType_sameView
    (h : pageMemControllerUpdatePageType pageState a w = (some (status, pageState'), w')) :
    SameView pageState pageState' := by
  cases updatePageType_run h with
  | unavailable => exact .refl _
  | failed => exact ⟨rfl, rfl, rfl, rfl⟩
  | found => exact ⟨rfl, rfl, rfl, rfl⟩

theorem updateMovedPage_sameView {old : NxU64} {status₀ : NxStatus}
    (h : updateMovedPage old status₀ pageState a w = (some (status, pageState'), w')) :
    SameView pageState pageState' := by
  rw [updateMovedPage] at h
  split_ifs at h
  · exact updatePageType_sameView h
  · obtain ⟨h, -⟩ := Prog.pure_eq_some.1 h
    cases h; exact .refl _

theorem command_width {c : NxUiChar} {width : NxUintn} (h : command c = some (.width width)) :
    WidthOk width := by
  rw [command] at h
  split_ifs at h <;> cases h
  · exact Or.inl rfl
  · exact Or.inr (Or.inl rfl)
  · exact Or.inr (Or.inr (Or.inl rfl))
  · exact Or.inr (Or.inr (Or.inr rfl))

/-- A page move changes the cursor by goto or by a page command. -/
theorem MovesPage.cursorStep {s₁ : PageMemPageState} {w₁ : W}
    (h : MovesPage a w key pageState s₁ w₁) :
    s₁.addressMap = pageState.addressMap ∧
      CursorStep a w key pageState.cursorState s₁.cursorState := by
  cases h with
  | goto h hprompt => exact ⟨rfl, .goto h hprompt⟩
  | pageDown h hmoved =>
    rw [pageMemActionPageDown, pageMemMoveToPage_moves hmoved]
    exact ⟨rfl, .page _⟩
  | pageUp h hmoved =>
    rw [pageMemActionPageUp, pageMemMoveToPage_moves hmoved]
    exact ⟨rfl, .page _⟩

/-- **What a key does to the cursor.** -/
theorem handleKeyPress_steps
    (h : pageMemControllerHandleKeyPress key pageState a w = (some (status, pageState'), w')) :
    pageState'.addressMap = pageState.addressMap ∧
      CursorStep a w key pageState.cursorState pageState'.cursorState := by
  cases handleKeyPress_run h with
  | esc => exact ⟨rfl, .stay⟩
  | arrow _ hdelta hmove =>
    obtain ⟨-, hmove⟩ := moveCursorByKey_eq hmove
    rw [hmove]
    exact ⟨rfl, .move hdelta⟩
  | edit => exact ⟨rfl, .stay⟩
  | cancelled => exact ⟨rfl, .stay⟩
  | goto hkey hprompt => exact ⟨rfl, .goto hkey hprompt⟩
  | page => exact ⟨rfl, .stay⟩
  | moves hmove htype =>
    have hview := updatePageType_sameView htype
    rw [hview.map, hview.cursor]
    exact hmove.cursorStep
  | ranges => exact ⟨rfl, .stay⟩
  | width hkey => exact ⟨rfl, .width (command_width hkey.command)⟩
  | unknown => exact ⟨rfl, .stay⟩

/-! ## The loop -/

/-- A key that does not end the run. -/
theorem serveKey_eq_inl (h : serveKey a pageState w = (some (.inl pageState'), w')) :
    ∃ key w₁ status w₂, a.tui.readKey w = (some key, w₁) ∧
      pageMemControllerHandleKeyPress key pageState a w₁ = (some (status, pageState'), w₂) ∧
      (isReported status = true ∧
        a.error.reportError (wide "PageMem action failed") status w₂ = (some (), w') ∨
        isReported status = false ∧ w' = w₂) := by
  obtain ⟨key, w₁, hkey, h⟩ := Prog.bind_eq_some.1 h
  obtain ⟨⟨status, pageState₁⟩, w₂, hpress, h⟩ := Prog.bind_eq_some.1 h
  refine ⟨key, w₁, status, w₂, hkey, ?_⟩
  dsimp only at h
  split_ifs at h with hend hrep
  · obtain ⟨h, -⟩ := Prog.pure_eq_some.1 h
    cases h
  · obtain ⟨_, w₃, hreport, h⟩ := Prog.bind_eq_some.1 h
    obtain ⟨h, rfl⟩ := Prog.pure_eq_some.1 h
    cases h
    exact ⟨hpress, Or.inl ⟨hrep, hreport⟩⟩
  · obtain ⟨h, rfl⟩ := Prog.pure_eq_some.1 h
    cases h
    exact ⟨hpress, Or.inr ⟨by simpa using hrep, rfl⟩⟩

/-- ESC ends the run, and no other key does. -/
theorem serveKey_eq_inr :
    serveKey a pageState w = (some (.inr status), w') ↔
      status = .success ∧ ∃ key, a.tui.readKey w = (some key, w') ∧ key.scanCode = nxUiScanEsc := by
  rw [serveKey, Prog.bind_eq_some]
  constructor
  · rintro ⟨key, w₁, hkey, h⟩
    obtain ⟨⟨status₁, pageState₁⟩, w₂, hpress, h⟩ := Prog.bind_eq_some.1 h
    dsimp only at h
    split_ifs at h with hend hrep
    · obtain ⟨h, rfl⟩ := Prog.pure_eq_some.1 h
      rw [pageMemControllerHandleKeyPress, if_pos hend.2] at hpress
      obtain ⟨-, rfl⟩ := Prog.pure_eq_some.1 hpress
      cases h
      exact ⟨rfl, key, hkey, hend.2⟩
    · obtain ⟨_, w₃, -, h⟩ := Prog.bind_eq_some.1 h
      obtain ⟨h, -⟩ := Prog.pure_eq_some.1 h
      cases h
    · obtain ⟨h, -⟩ := Prog.pure_eq_some.1 h
      cases h
  · rintro ⟨rfl, key, hkey, hesc⟩
    refine ⟨key, w', hkey, Prog.bind_eq_some.2 ⟨(.aborted, pageState), w', ?_, ?_⟩⟩
    · rw [pageMemControllerHandleKeyPress, if_pos hesc]
      rfl
    · exact congrFun (if_pos ⟨rfl, hesc⟩) w'

theorem redrawIfNeeded_eq (h : redrawIfNeeded a pageState w = (some pageState', w')) :
    pageState' = { pageState with needsRedraw := false } := by
  rw [redrawIfNeeded] at h
  split_ifs at h with hredraw
  · obtain ⟨_, w₁, -, h⟩ := Prog.bind_eq_some.1 h
    obtain ⟨h, -⟩ := Prog.pure_eq_some.1 h
    exact h.symm
  · obtain ⟨rfl, -⟩ := Prog.pure_eq_some.1 h
    obtain ⟨_, _, _, _, _, _, needsRedraw⟩ := pageState
    have : needsRedraw = false := Bool.eq_false_of_not_eq_true hredraw
    rw [this]

/-- The page state after a successful initialization. -/
theorem pageMemControllerInit_success
    (h : pageMemControllerInit pageState a w = (some (status, pageState'), w'))
    (hok : nxUiError status = false) :
    ∃ w₁ descriptors w₂, a.memory.init w = (some .success, w₁) ∧
      a.memory.getMemoryMapDescriptors w₁ = (some (some descriptors), w₂) ∧
      pageState'.addressMap = ⟨some descriptors⟩ ∧
      pageState'.cursorState =
        ⟨pageCoreAlignToPage (pageCoreGetFirstValidAddress ⟨some descriptors⟩) pageSize, 0, 1⟩ ∧
      pageState'.currentState = .viewing ∧ pageState'.needsRedraw = true ∧
      ∃ pageState₁,
        pageMemControllerUpdatePageType pageState₁ a w₂ = (some (status, pageState'), w') := by
  obtain ⟨status₁, w₁, hinit, h⟩ := Prog.bind_eq_some.1 h
  by_cases herr : nxUiError status₁ = true
  · rw [if_pos herr] at h
    obtain ⟨_, w₂, -, h⟩ := Prog.bind_eq_some.1 h
    obtain ⟨h, -⟩ := Prog.pure_eq_some.1 h
    cases h; rw [herr] at hok; cases hok
  rw [if_neg herr] at h
  obtain rfl : status₁ = .success := by
    simpa [nxUiError] using herr
  obtain ⟨descriptors, w₂, hdescs, h⟩ := Prog.bind_eq_some.1 h
  rcases descriptors with _ | _ | ⟨d, ds⟩
  · obtain ⟨h, -⟩ := Prog.pure_eq_some.1 h
    cases h; cases hok
  · obtain ⟨h, -⟩ := Prog.pure_eq_some.1 h
    cases h; cases hok
  · have hview := updatePageType_sameView h
    exact ⟨w₁, d :: ds, w₂, hinit, hdescs, hview.map, hview.cursor, hview.mode, hview.redraw,
      _, h⟩

/-- The loop of a run that gets so far, from the state the initialization leaves. -/
theorem runVisits_eq_some {n : ℕ} :
    runVisits a n pageState w = some (pageState', w') ↔
      ∃ status pageState₁ w₁, pageMemControllerInit pageState a w = (some (status, pageState₁), w₁) ∧
        nxUiError status = false ∧
        Prog.visits (redrawIfNeeded a) (serveKey a) n pageState₁ w₁ = some (pageState', w') := by
  rw [runVisits, Option.bind_eq_some_iff]
  constructor
  · rintro ⟨⟨⟨status, pageState₁⟩, w₁⟩, hinit, h⟩
    rw [Prog.done_eq_some] at hinit
    dsimp only at h
    split_ifs at h with hok
    exact ⟨status, pageState₁, w₁, hinit, by simpa using hok, h⟩
  · rintro ⟨status, pageState₁, w₁, hinit, hok, h⟩
    refine ⟨⟨⟨status, pageState₁⟩, w₁⟩, Prog.done_eq_some.2 hinit, ?_⟩
    simp only [hok, Bool.false_eq_true, if_false]
    exact h

/-- The first key. -/
theorem runVisits_zero :
    runVisits a 0 pageState w = some (pageState', w') ↔
      ∃ status s v, pageMemControllerInit pageState a w = (some (status, s), v) ∧
        nxUiError status = false ∧ redrawIfNeeded a s v = (some pageState', w') := by
  simp only [runVisits_eq_some, Prog.visits_zero]

/-- The next key. -/
theorem runVisits_succ {n : ℕ} :
    runVisits a (n + 1) pageState w = some (pageState', w') ↔
      ∃ s₁ v₁ s₂ v₂, runVisits a n pageState w = some (s₁, v₁) ∧
        serveKey a s₁ v₁ = (some (.inl s₂), v₂) ∧
        redrawIfNeeded a s₂ v₂ = (some pageState', w') := by
  simp only [runVisits_eq_some, Prog.visits_succ]
  constructor
  · rintro ⟨status, s, v, hinit, hok, s₁, v₁, s₂, v₂, hvisit, hserve, htop⟩
    exact ⟨s₁, v₁, s₂, v₂, ⟨status, s, v, hinit, hok, hvisit⟩, hserve, htop⟩
  · rintro ⟨s₁, v₁, s₂, v₂, ⟨status, s, v, hinit, hok, hvisit⟩, hserve, htop⟩
    exact ⟨status, s, v, hinit, hok, s₁, v₁, s₂, v₂, hvisit, hserve, htop⟩

/-- **What holds all along a run**: the address map is the one of the
    initialization, and a relation that all calls but it keep holds. -/
theorem runVisits_frame {R : W → W → Prop} [IsPreorder W R] {n : ℕ}
    (ha : a.Serves (· ≠ .init) (Prog.Sat R))
    (h : runVisits a n pageState w = some (pageState', w')) :
    ∃ w₁ descriptors w₂, a.memory.init w = (some .success, w₁) ∧
      a.memory.getMemoryMapDescriptors w₁ = (some (some descriptors), w₂) ∧
      pageState'.addressMap = ⟨some descriptors⟩ ∧ R w₁ w' := by
  have hq : ∀ c, AdapterCall.Quiet c → c ≠ .init := by
    rintro c hc rfl; exact hc
  obtain ⟨status, pageState₁, w₃, hinit, hok, h⟩ := runVisits_eq_some.1 h
  obtain ⟨w₁, descriptors, w₂, hmem, hdescs, hmap, -, -, -, pageState₂, htype⟩ :=
    pageMemControllerInit_success hinit hok
  have h12 : R w₁ w₂ := by
    have := ha.getMemoryMapDescriptors (by simp) w₁
    rwa [hdescs] at this
  have h23 : R w₂ w₃ := by
    have := (ha.mono hq).pageMemControllerUpdatePageType pageState₂ w₂
    rwa [htype] at this
  refine ⟨w₁, descriptors, w₂, hmem, hdescs, ?_⟩
  have htop : ∀ s v s' v', redrawIfNeeded a s v = (some s', v') →
      s'.addressMap = s.addressMap ∧ R v v' := by
    intro s v s' v' h
    have := (ha.mono hq).drawn.redrawIfNeeded s v
    rw [h] at this
    rw [redrawIfNeeded_eq h]
    exact ⟨rfl, this⟩
  refine Prog.visits_induct (I := fun s v => s.addressMap = ⟨some descriptors⟩ ∧ R w₁ v)
    ?_ ?_ n pageState' w' h
  · intro s v h
    obtain ⟨hm, hR⟩ := htop _ _ _ _ h
    exact ⟨hm.trans hmap, trans_of R (trans_of R h12 h23) hR⟩
  · rintro s₁ v₁ s₂ v₂ s v ⟨hm₁, hR₁⟩ hserve htop'
    have hR₂ := ha.serveKey s₁ hq (by simp) (by simp) v₁
    rw [hserve] at hR₂
    obtain ⟨key, v₃, st, v₄, -, hpress, -⟩ := serveKey_eq_inl hserve
    obtain ⟨hm, hR⟩ := htop _ _ _ _ htop'
    exact ⟨hm.trans ((handleKeyPress_steps hpress).1.trans hm₁),
      trans_of R (trans_of R hR₁ hR₂) hR⟩

/-- **Two runs** on which the calls agree wait for their keys with the same page
    states. -/
theorem runVisits_agree {R : W → W → Prop} (ha : a.Serves (· ≠ .init) (Prog.Agree R))
    (hinit : (a.memory.init w).1 = (a.memory.init w').1 ∧
      R (a.memory.init w).2 (a.memory.init w').2) (n : ℕ) (pageState : PageMemPageState) :
    Option.Rel (fun p q => p.1 = q.1 ∧ R p.2 q.2) (runVisits a n pageState w)
      (runVisits a n pageState w') := by
  have hq : ∀ c, AdapterCall.Quiet c → c ≠ .init := by
    rintro c hc rfl; exact hc
  obtain ⟨rest, heq, hrest⟩ := ha.pageMemControllerInit_rest hq pageState
  have hstart := Prog.Agree.seq hinit hrest
  rw [← heq] at hstart
  refine Prog.rel_bind (Prog.done_agree hstart) ?_
  rintro ⟨⟨status, s⟩, w₁⟩ ⟨_, w₁'⟩ ⟨rfl, h⟩
  dsimp only
  split_ifs
  · exact .none
  · exact Prog.visits_agree (fun s => (ha.mono hq).drawn.redrawIfNeeded s)
      (fun s => ha.serveKey s hq (by simp) (by simp)) n s w₁ w₁' h

end UefiNexus
