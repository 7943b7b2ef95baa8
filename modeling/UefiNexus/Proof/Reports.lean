/-
  Reported errors and redraws.

  * `KeyFails a s w`: the next key is an edit that is rejected or fails, or it
    moves to a page whose type lookup fails; these are the keys for which an
    error is reported;
  * each of them makes a redraw due, and the redraw clears the screen before the
    next key is awaited (`cleared_of_keyFails`).
-/
import UefiNexus.Proof.Metadata

namespace UefiNexus

variable {W : Type} {a : AdapterManager W} {key : NxUiKey} {status : NxStatus}
  {s s' : PageMemPageState} {w w' : W}

/-! ## Keys that fail -/

/-- The edit is rejected, its value is too large, or its write gives an error the
    loop reports. -/
def EditFails (a : AdapterManager W) (w : W) (s : PageMemPageState) : Prop :=
  editRejects s ≠ none ∨
    ∃ value w₁, valuePrompt a.tui s w = (some (true, value), w₁) ∧
      (pageMemValueFitsWidth value s.cursorState.width = false ∨
        ∃ status w₂, a.memory.memWrite (pageCoreGetCurrentAddress s.cursorState)
          s.cursorState.width value w₁ = (some status, w₂) ∧ isReported status = true)

/-- The key is an edit that fails, or a page move that fails. -/
def PressFails (a : AdapterManager W) (w : W) (key : NxUiKey) (s : PageMemPageState) : Prop :=
  IsCommand key s.cursorState.width .edit ∧ EditFails a w s ∨ MoveFails a w key s

/-- The next key fails. -/
def KeyFails (a : AdapterManager W) (w : W) (s : PageMemPageState) : Prop :=
  ∃ key w₁, a.tui.readKey w = (some key, w₁) ∧ PressFails a w₁ key s

theorem MovesPage.not_edit {s₁ : PageMemPageState} {w₁ : W} (h : MovesPage a w key s s₁ w₁) :
    ¬ IsCommand key s.cursorState.width .edit := by
  intro hedit
  cases h with
  | goto h => exact absurd (h.command.symm.trans hedit.command) (by decide)
  | pageDown h => exact absurd (h.command.symm.trans hedit.command) (by decide)
  | pageUp h => exact absurd (h.command.symm.trans hedit.command) (by decide)

/-- A key that has stayed on its page was no page move. -/
theorem SamePage.not_moveFails (hsame : SamePage s s')
    (h : pageMemControllerHandleKeyPress key s a w = (some (status, s'), w')) :
    ¬ MoveFails a w key s :=
  fun ⟨s₁, w₁, hmove, _⟩ => by
    rw [hmove.handleKeyPress] at h
    refine hmove.state.1 ?_
    rw [← (updatePageType_sameView h).cursor]
    exact hsame.address

/-- A page move fails exactly if the key does. -/
theorem MovesPage.moveFails_iff {s₁ : PageMemPageState} {w₁ : W}
    (hmove : MovesPage a w key s s₁ w₁)
    (h : pageMemControllerHandleKeyPress key s a w = (some (status, s'), w')) :
    MoveFails a w key s ↔ status ≠ .success := by
  constructor
  · rintro ⟨s₂, w₂, hmove', hfails⟩
    rw [hmove'.handleKeyPress] at h
    exact (lookupFails_iff h).1 hfails
  · intro hstatus
    rw [hmove.handleKeyPress] at h
    exact ⟨s₁, w₁, hmove, (lookupFails_iff h).2 hstatus⟩

/-! ## Recorded reports -/

/-- The calls other than a report. -/
def AdapterCall.NoReport : AdapterCall → Prop
  | reportError _ _ => False
  | _ => True

/-- Among the calls recorded since `p` there is a report. -/
def Reports (p p' : W × List AdapterCall) : Prop :=
  ∃ calls message status, p'.2 = p.2 ++ calls ∧ .reportError message status ∈ calls

/-- No report is followed by a clear screen. -/
def ReportsKept (calls : List AdapterCall) : Prop :=
  ∀ before after message status, calls = before ++ .reportError message status :: after →
    .clearScreen ∉ after

section
variable {p p' p'' : W × List AdapterCall}

theorem Reports.after (h : Extends (fun _ => True) p p') (h' : Reports p' p'') : Reports p p'' := by
  obtain ⟨calls, heq, -⟩ := h
  obtain ⟨calls', message, status, heq', hmem⟩ := h'
  exact ⟨calls ++ calls', message, status, by rw [heq', heq, List.append_assoc],
    List.mem_append_right _ hmem⟩

theorem Reports.before (h : Reports p p') (h' : Extends (fun _ => True) p' p'') : Reports p p'' := by
  obtain ⟨calls, message, status, heq, hmem⟩ := h
  obtain ⟨calls', heq', -⟩ := h'
  exact ⟨calls ++ calls', message, status, by rw [heq', heq, List.append_assoc],
    List.mem_append_left _ hmem⟩

theorem reportError_reports {message : List NxUiChar}
    (h : (traced a).error.reportError message status p = (some (), p')) : Reports p p' := by
  refine ⟨[.reportError message status], message, status, ?_, List.mem_singleton.2 rfl⟩
  have hcalls := congrArg (fun r => r.2.2) h
  exact hcalls.symm

theorem AdapterCall.Silent.noReport {c : AdapterCall} (h : c.Silent) : c.NoReport := by
  cases c <;> trivial

theorem AdapterCall.Drawn.noReport {c : AdapterCall} (h : c.Drawn) : c.NoReport := by
  obtain h | rfl := h
  · exact h.noReport
  · trivial

/-- **What an edit reports**, itself or through the loop. -/
theorem editValue_reports (h : pageMemActionEditValue s (traced a) p = (some status, p')) :
    (¬ EditFails (traced a) p s ∧ isReported status = false ∧
      Extends AdapterCall.NoReport p p') ∨
    EditFails (traced a) p s ∧ (Reports p p' ∨ isReported status = true) := by
  have hcalls := traced_extends a AdapterCall.NoReport
  have hprompts := (hcalls.mono fun _ => AdapterCall.Silent.noReport).valuePrompt s
  have hgrows := ((traced_extends a fun _ => True).mono fun c (_ : c.Silent) => trivial).valuePrompt s
  cases editValue_run h with
  | rejected hreject hreport =>
    refine Or.inr ⟨Or.inl ?_, Or.inl (reportError_reports hreport)⟩
    rw [hreject]
    exact Option.some_ne_none _
  | cancelled hreject hprompt =>
    refine Or.inl ⟨?_, rfl, hprompts.run hprompt⟩
    rintro (hne | ⟨value, p₁, hprompt', -⟩)
    · exact hne hreject
    · rw [hprompt] at hprompt'
      cases hprompt'
  | tooLarge hreject hprompt hfits hreport =>
    exact Or.inr ⟨Or.inr ⟨_, _, hprompt, Or.inl hfits⟩,
      Or.inl ((reportError_reports hreport).after (hgrows.run hprompt))⟩
  | write hreject hprompt hfits hwrite =>
    by_cases hrep : isReported status = true
    · exact Or.inr ⟨Or.inr ⟨_, _, hprompt, Or.inr ⟨_, _, hwrite, hrep⟩⟩, Or.inr hrep⟩
    · refine Or.inl ⟨?_, Bool.eq_false_of_not_eq_true hrep, ?_⟩
      · rintro (hne | ⟨value, p₁, hprompt', hfails⟩)
        · exact hne hreject
        · rw [hprompt] at hprompt'
          cases hprompt'
          rcases hfails with hlarge | ⟨status', p₂, hwrite', hrep'⟩
          · rw [hfits] at hlarge
            cases hlarge
          · rw [hwrite] at hwrite'
            cases hwrite'
            exact hrep hrep'
      · exact trans_of _ (hprompts.run hprompt) ((hcalls.memWrite _ _ _ trivial).run hwrite)

/-- What a page move reports: a failed type lookup is reported. -/
theorem MovesPage.reports {s₁ : PageMemPageState} {p₁ : W × List AdapterCall}
    (hmove : MovesPage (traced a) p key s s₁ p₁)
    (h : pageMemControllerHandleKeyPress key s (traced a) p = (some (status, s'), p')) :
    (¬ PressFails (traced a) p key s ∧ isReported status = false ∧
      Extends AdapterCall.NoReport p p') ∨
    PressFails (traced a) p key s ∧ s'.needsRedraw = true ∧
      (Reports p p' ∨ isReported status = true) := by
  have hcalls := traced_extends a AdapterCall.NoReport
  have hgrows := hmove.frame (traced_extends a fun _ => True) fun _ _ => trivial
  have hfails := hmove.moveFails_iff h
  have htype := h
  rw [hmove.handleKeyPress] at htype
  have hredraw := (updatePageType_sameView htype).redraw.trans hmove.state.2.1
  cases updatePageType_run htype with
  | unavailable _ hreport =>
    exact Or.inr ⟨Or.inr (hfails.2 (by decide)), hredraw,
      Or.inl ((reportError_reports hreport).after hgrows)⟩
  | failed hf hlookup herr hreport =>
    have hstatus : status ≠ .success := by
      rintro rfl
      cases herr
    have hgrows' := ((traced_extends a fun _ => True).getMemoryTypeAtAddress _ hf _ _
      trivial).run hlookup
    exact Or.inr ⟨Or.inr (hfails.2 hstatus), hredraw, Or.inl
      ((reportError_reports hreport).after (trans_of _ hgrows hgrows'))⟩
  | @found f type found access p₂ p₃ hf hlookup haccess =>
    have hnone := hmove.frame hcalls fun _ => AdapterCall.Silent.noReport
    refine Or.inl ⟨?_, rfl, trans_of _ hnone (trans_of _
      ((hcalls.getMemoryTypeAtAddress _ hf _ _ trivial).run hlookup) ?_)⟩
    · rintro (⟨hedit, -⟩ | hmoveFails)
      · exact hmove.not_edit hedit
      · exact hfails.1 hmoveFails rfl
    · rcases hg : (traced a).memory.queryAccess with _ | g
      · rw [hg] at haccess
        obtain ⟨-, rfl⟩ := Prog.pure_eq_some.1 haccess
        exact refl_of _ _
      · rw [hg] at haccess
        exact (hcalls.queryAccess g hg _ _ _ trivial).run haccess

/-- **What a key reports**: a key that fails reports an error, itself or through
    the loop, and makes a redraw due; no other key reports anything. -/
theorem handleKeyPress_reports
    (h : pageMemControllerHandleKeyPress key s (traced a) p = (some (status, s'), p')) :
    (¬ PressFails (traced a) p key s ∧ isReported status = false ∧
      Extends AdapterCall.NoReport p p') ∨
    PressFails (traced a) p key s ∧ s'.needsRedraw = true ∧
      (Reports p p' ∨ isReported status = true) := by
  have hcalls := traced_extends a AdapterCall.NoReport
  by_cases hedit : IsCommand key s.cursorState.width .edit
  · have hrun := h
    rw [hedit.handleKeyPress, handleCommand, hedit.command] at hrun
    obtain ⟨status₁, p₁, hvalue, hrun⟩ := Prog.bind_eq_some.1 hrun
    obtain ⟨hrun, rfl⟩ := Prog.pure_eq_some.1 hrun
    cases hrun
    have hstay : ¬ MoveFails (traced a) p key s := by
      rintro ⟨_, _, hmove, _⟩
      exact hmove.not_edit hedit
    rcases editValue_reports hvalue with ⟨hno, hquiet, hnone⟩ | ⟨hfails, hrep⟩
    · refine Or.inl ⟨?_, hquiet, hnone⟩
      rintro (⟨-, hfails⟩ | hmove)
      · exact hno hfails
      · exact hstay hmove
    · exact Or.inr ⟨Or.inl ⟨hedit, hfails⟩, rfl, hrep⟩
  rcases (handleKeyPress_run h).stays_or_moves hcalls (fun _ => AdapterCall.Silent.noReport)
    (fun h => absurd h hedit) with ⟨hsame, hnone, hrep⟩ | ⟨s₁, p₁, hmove, -, -⟩
  · refine Or.inl ⟨?_, Bool.eq_false_of_not_eq_true fun h => hedit (hrep h), hnone⟩
    rintro (⟨h, -⟩ | hmove)
    · exact hedit h
    · exact hsame.not_moveFails h hmove
  · exact hmove.reports h

/-- What serving a key reports. -/
theorem serveKey_reports (h : serveKey (traced a) s p = (some (.inl s'), p')) :
    (¬ KeyFails (traced a) p s ∧ Extends AdapterCall.NoReport p p') ∨
    KeyFails (traced a) p s ∧ s'.needsRedraw = true ∧ Reports p p' := by
  obtain ⟨key, p₁, status, p₂, hread, hpress, hreport⟩ := serveKey_eq_inl h
  have hread₁ := ((traced_extends a AdapterCall.NoReport).readKey trivial).run hread
  have hread₂ := ((traced_extends a fun _ => True).readKey trivial).run hread
  rcases handleKeyPress_reports hpress with ⟨hno, hquiet, hnone⟩ | ⟨hfails, hredraw, hrep⟩
  · refine Or.inl ⟨?_, ?_⟩
    · rintro ⟨key', p₁', hread', hfails⟩
      rw [hread] at hread'
      cases hread'
      exact hno hfails
    · obtain ⟨hloud, -⟩ | ⟨-, rfl⟩ := hreport
      · rw [hquiet] at hloud
        cases hloud
      · exact trans_of _ hread₁ hnone
  · refine Or.inr ⟨⟨key, p₁, hread, hfails⟩, hredraw, Reports.after hread₂ ?_⟩
    have hpress₁ : Extends (fun _ => True) p₁ p₂ :=
      (((traced_extends a fun _ => True).pageMemControllerHandleKeyPress s (fun _ _ => trivial)
        (fun _ => trivial) (fun _ => trivial) key).run hpress)
    obtain ⟨hloud, hcall⟩ | ⟨hquiet, rfl⟩ := hreport
    · exact (reportError_reports hcall).after hpress₁
    · obtain hrep | hloud := hrep
      · exact hrep
      · rw [hquiet] at hloud
        cases hloud

/-- A redraw reports nothing, and it clears the screen. -/
theorem redrawIfNeeded_clears (h : redrawIfNeeded (traced a) s p = (some s', p')) :
    Extends AdapterCall.NoReport p p' ∧
    (s.needsRedraw = true → ∃ calls, p'.2 = p.2 ++ calls ∧ .clearScreen ∈ calls) := by
  have hcalls := (traced_extends a AdapterCall.NoReport).mono fun _ => AdapterCall.Drawn.noReport
  refine ⟨(hcalls.redrawIfNeeded s).run h, fun hredraw => ?_⟩
  have hgrows := (traced_extends a fun _ => True).mono fun c (_ : c.Silent) => trivial
  obtain ⟨rest, heq, hrest⟩ := hgrows.pageMemViewDrawPage_eq s
  rw [redrawIfNeeded, if_pos hredraw, heq] at h
  obtain ⟨_, p₁, hdraw, h⟩ := Prog.bind_eq_some.1 h
  obtain ⟨_, p₂, hclear, hdraw⟩ := Prog.bind_eq_some.1 hdraw
  obtain ⟨-, rfl⟩ := Prog.pure_eq_some.1 h
  obtain ⟨calls, heq', -⟩ := hrest.run hdraw
  have hcall : p.2 ++ [.clearScreen] = p₂.2 := congrArg (fun r => r.2.2) hclear
  refine ⟨.clearScreen :: calls, ?_, List.mem_cons_self⟩
  rw [heq', ← hcall, List.append_assoc]
  rfl

end

section
variable {n : ℕ} {s₀ : PageMemPageState} {p₀ p p' : W × List AdapterCall}
  (h : runVisits (traced a) n s₀ p₀ = some (s, p))
  (h' : runVisits (traced a) (n + 1) s₀ p₀ = some (s', p'))
include h h'

/-- A key that does not fail: nothing is reported. -/
theorem kept_of_not_keyFails (hno : ¬ KeyFails (traced a) p s) :
    ∃ calls, p'.2 = p.2 ++ calls ∧ ReportsKept calls := by
  obtain ⟨s₁, p₁, s₂, p₂, hvisit, hserve, htop⟩ := runVisits_succ.1 h'
  rw [h] at hvisit
  cases hvisit
  obtain ⟨calls₁, heq₁, hnone₁⟩ := (serveKey_reports hserve).elim And.right fun h => absurd h.1 hno
  obtain ⟨⟨calls₂, heq₂, hnone₂⟩, -⟩ := redrawIfNeeded_clears htop
  refine ⟨calls₁ ++ calls₂, by rw [heq₂, heq₁, List.append_assoc], ?_⟩
  intro before after message status heq
  have hmem : AdapterCall.reportError message status ∈ calls₁ ++ calls₂ := by
    rw [heq]
    exact List.mem_append_right _ List.mem_cons_self
  exact absurd ((List.mem_append.1 hmem).elim (hnone₁ _) (hnone₂ _)) id

/-- A key that fails: its report is cleared. -/
theorem cleared_of_keyFails (hfails : KeyFails (traced a) p s) :
    ∃ calls, p'.2 = p.2 ++ calls ∧ ¬ ReportsKept calls := by
  obtain ⟨s₁, p₁, s₂, p₂, hvisit, hserve, htop⟩ := runVisits_succ.1 h'
  rw [h] at hvisit
  cases hvisit
  obtain ⟨hredraw, calls₁, message, status, heq₁, hmem⟩ :=
    (serveKey_reports hserve).elim (fun h => absurd hfails h.1) And.right
  obtain ⟨calls₂, heq₂, hclear⟩ := (redrawIfNeeded_clears htop).2 hredraw
  refine ⟨calls₁ ++ calls₂, by rw [heq₂, heq₁, List.append_assoc], fun hkept => ?_⟩
  obtain ⟨before, after, rfl⟩ := List.append_of_mem hmem
  refine hkept before (after ++ calls₂) message status ?_ (List.mem_append_right _ hclear)
  rw [List.append_assoc, List.cons_append]

/-- **When a reported error is kept.**  Between two keys a report is followed by a
    clear screen, unless the first key is one of those for which nothing is
    reported. -/
theorem report_kept_iff :
    ∃ calls, p'.2 = p.2 ++ calls ∧ (ReportsKept calls ↔ ¬ KeyFails (traced a) p s) := by
  by_cases hfails : KeyFails (traced a) p s
  · obtain ⟨calls, heq, hcleared⟩ := cleared_of_keyFails h h' hfails
    exact ⟨calls, heq, iff_of_false hcleared fun h => h hfails⟩
  · obtain ⟨calls, heq, hkept⟩ := kept_of_not_keyFails h h' hfails
    exact ⟨calls, heq, iff_of_true hkept hfails⟩

end

/-- The first key of a run sets the width. -/
theorem report_kept_width :
    ∃ s p s' p' calls,
      runVisits (traced (deskAdapters deskMap)) 0 deskState (desk [charKey '4'] [], []) =
        some (s, p) ∧
      runVisits (traced (deskAdapters deskMap)) 1 deskState (desk [charKey '4'] [], []) =
        some (s', p') ∧
      p'.2 = p.2 ++ calls ∧
      (ReportsKept calls ↔ ¬ KeyFails (traced (deskAdapters deskMap)) p s) := by
  have hvisits : ∀ n < 2, (runVisits (traced (deskAdapters deskMap)) n deskState
      (desk [charKey '4'] [], [])).isSome := by
    decide +kernel
  obtain ⟨⟨s, p⟩, h⟩ := Option.isSome_iff_exists.1 (hvisits 0 (by decide))
  obtain ⟨⟨s', p'⟩, h'⟩ := Option.isSome_iff_exists.1 (hvisits 1 (by decide))
  obtain ⟨calls, hcalls⟩ := report_kept_iff h h'
  exact ⟨s, p, s', p', calls, h, h', hcalls⟩

/-- The first key of a run edits a byte, with a value of three digits. -/
theorem too_large_value_cleared :
    ∃ s p s' p' calls,
      runVisits (traced (deskAdapters deskMap)) 0 deskState (desk [charKey 'e'] [0x100], []) =
        some (s, p) ∧
      runVisits (traced (deskAdapters deskMap)) 1 deskState (desk [charKey 'e'] [0x100], []) =
        some (s', p') ∧
      p'.2 = p.2 ++ calls ∧ ¬ ReportsKept calls := by
  have hvisits : ∀ n < 2, (runVisits (traced (deskAdapters deskMap)) n deskState
      (desk [charKey 'e'] [0x100], [])).isSome := by
    decide +kernel
  have hstart : (runVisits (traced (deskAdapters deskMap)) 0 deskState
      (desk [charKey 'e'] [0x100], [])).map (fun q =>
        (q.1.cursorState, q.1.addressMap.descriptors, q.2.1.keys, q.2.1.answers)) =
      some (⟨0x1000, 0, 1⟩, some deskMap, [charKey 'e'], [0x100]) := by
    decide +kernel
  obtain ⟨⟨s, p⟩, h⟩ := Option.isSome_iff_exists.1 (hvisits 0 (by decide))
  obtain ⟨⟨s', p'⟩, h'⟩ := Option.isSome_iff_exists.1 (hvisits 1 (by decide))
  rw [h] at hstart
  obtain ⟨⟨screen, memory, keys, answers⟩, recorded⟩ := p
  obtain ⟨state, cursor, ⟨map⟩, type, found, access, redraw⟩ := s
  obtain ⟨rfl, hstart⟩ := Prod.mk.inj (Option.some.inj hstart)
  obtain ⟨rfl, hstart⟩ := Prod.mk.inj hstart
  obtain ⟨rfl, rfl⟩ := Prod.mk.inj hstart
  have hedit : IsCommand (charKey 'e') 1 .edit := ⟨by decide, by decide, by decide⟩
  have hlarge : pageMemValueFitsWidth 0x100 1 = false := by decide
  obtain ⟨calls, hcalls⟩ := cleared_of_keyFails h h'
    ⟨charKey 'e', _, rfl, Or.inl ⟨hedit, Or.inr ⟨0x100, _, rfl, Or.inl hlarge⟩⟩⟩
  exact ⟨_, _, s', p', calls, h, h', hcalls⟩

end UefiNexus
