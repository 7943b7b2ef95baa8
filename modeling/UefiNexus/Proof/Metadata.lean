/-
  The page metadata: memory type, descriptor flag and access.

  * `SamePage s s'`: the page is the same, and so is what is known of it;
  * a key stays on its page, or it moves to another one and looks its metadata
    up (`KeyRun.stays_or_moves`), hence the metadata is never stale (`metadata_fresh`);
  * a failed key has stayed on its page, except where the lookup of a page move
    fails (`failed_key_page`).
-/
import UefiNexus.Proof.Keys
import UefiNexus.Proof.Terminal

namespace UefiNexus

variable {W : Type} {a : AdapterManager W} {key : NxUiKey} {status : NxStatus}
  {s s' : PageMemPageState} {w w' : W}

/-- The page is the same, and so is what is known of it. -/
structure SamePage (s s' : PageMemPageState) : Prop where
  address : s'.cursorState.address = s.cursorState.address
  type : s'.pageUefiMemoryType = s.pageUefiMemoryType
  found : s'.pageHasMemoryDescriptor = s.pageHasMemoryDescriptor
  access : s'.pageAccess = s.pageAccess

theorem SamePage.refl (s : PageMemPageState) : SamePage s s := ⟨rfl, rfl, rfl, rfl⟩

section
variable {S : AdapterCall → Prop} {R : W → W → Prop} [IsPreorder W R]
  (ha : a.Serves S (Prog.Sat R)) (hS : ∀ c, AdapterCall.Silent c → S c)
include ha hS

theorem MovesPage.frame {s₁ : PageMemPageState} {w₁ : W} (h : MovesPage a w key s s₁ w₁) :
    R w w₁ := by
  have hs := ha.mono hS
  cases h with
  | goto h hprompt hclear hmoved =>
    exact trans_of R (hs.gotoPrompt.run hprompt) (hs.clearGotoPrompt.run hclear)
  | pageDown => exact refl_of R w
  | pageUp => exact refl_of R w

/-- **A key and its page.**  It stays on the page, and only an edit gives an error
    the loop reports; or it moves to another page, and up to the type lookup it
    makes only the calls of its action. -/
theorem KeyRun.stays_or_moves
    (hedit : IsCommand key s.cursorState.width .edit → Prog.Sat R (pageMemActionEditValue s a))
    (h : KeyRun a key s w status s' w') :
    (SamePage s s' ∧ R w w' ∧
      (isReported status = true → IsCommand key s.cursorState.width .edit)) ∨
    ∃ s₁ w₁, MovesPage a w key s s₁ w₁ ∧ R w w₁ ∧
      pageMemControllerUpdatePageType s₁ a w₁ = (some (status, s'), w') := by
  have hs := ha.mono hS
  cases h with
  | esc => exact Or.inl ⟨.refl s, refl_of R w, nofun⟩
  | arrow hesc hdelta hmove =>
    refine Or.inl ⟨?_, (hs.moveCursorByKey s _).run hmove, nofun⟩
    rw [(moveCursorByKey_eq hmove).2]
    exact ⟨rfl, rfl, rfl, rfl⟩
  | edit h hrun => exact Or.inl ⟨⟨rfl, rfl, rfl, rfl⟩, (hedit h).run hrun, fun _ => h⟩
  | cancelled h hprompt hclear =>
    refine Or.inl ⟨⟨rfl, rfl, rfl, rfl⟩, ?_, nofun⟩
    exact trans_of R (hs.gotoPrompt.run hprompt) (hs.clearGotoPrompt.run hclear)
  | goto h hprompt hclear hsame =>
    refine Or.inl ⟨⟨hsame, rfl, rfl, rfl⟩, ?_, nofun⟩
    exact trans_of R (hs.gotoPrompt.run hprompt) (hs.clearGotoPrompt.run hclear)
  | page => exact Or.inl ⟨.refl s, refl_of R w, nofun⟩
  | moves h htype => exact Or.inr ⟨_, _, h, h.frame ha hS, htype⟩
  | ranges h hdump =>
    exact Or.inl ⟨⟨rfl, rfl, rfl, rfl⟩, (hs.dumpValidRanges trivial).run hdump, nofun⟩
  | width => exact Or.inl ⟨⟨rfl, rfl, rfl, rfl⟩, refl_of R w, nofun⟩
  | unknown => exact Or.inl ⟨.refl s, refl_of R w, nofun⟩

end

/-! ## Fresh metadata -/

/-- The lookups of the adapter are fixed functions of their address arguments,
    and the type lookup succeeds. -/
structure FixedLookups (a : AdapterManager W) (lookup : NxU64 → NxU32 × NxBool)
    (query : NxU64 → NxU64 → NxMemoryAccess) : Prop where
  type : ∃ f, a.memory.getMemoryTypeAtAddress = some f ∧
    ∀ ad old w r w', f ad old w = (some r, w') → r = (.success, lookup ad)
  access : ∃ g, a.memory.queryAccess = some g ∧
    ∀ ad n old w r w', g ad n old w = (some r, w') → r = query ad n

/-- The metadata is the one of the page. -/
structure Fresh (lookup : NxU64 → NxU32 × NxBool) (query : NxU64 → NxU64 → NxMemoryAccess)
    (s : PageMemPageState) : Prop where
  type : (s.pageUefiMemoryType, s.pageHasMemoryDescriptor) = lookup s.cursorState.address
  access : s.pageAccess = query s.cursorState.address pageSize

/-- The memory type and the access of a page of the platform. -/
def deskLookup (_ : NxU64) : NxU32 × NxBool := (7, true)

def deskQuery (address n : NxU64) : NxMemoryAccess := ⟨address, n, true, true, true, false⟩

/-- The adapters of the platform, with a type lookup that ends with `result`. -/
def lookupAdapters (result : NxU64 → NxStatus) : AdapterManager Desk :=
  let desk := deskAdapters deskMap
  { desk with
    memory :=
      { desk.memory with
        getMemoryTypeAtAddress := some fun address _ =>
          pure (result address, deskLookup address)
        queryAccess := some fun address n _ => pure (deskQuery address n) } }

/-- The page at `0x1000`, with its metadata. -/
def pageState1000 : PageMemPageState where
  currentState := .viewing
  cursorState := ⟨0x1000, 0x10, 4⟩
  addressMap := ⟨some deskMap⟩
  pageUefiMemoryType := 7
  pageHasMemoryDescriptor := true
  pageAccess := deskQuery 0x1000 pageSize
  needsRedraw := false

theorem lookupAdapters_fixed :
    FixedLookups (lookupAdapters fun _ => .success) deskLookup deskQuery := by
  refine ⟨⟨_, rfl, ?_⟩, ⟨_, rfl, ?_⟩⟩
  · rintro ad old w r w' ⟨⟩
    rfl
  · rintro ad n old w r w' ⟨⟩
    rfl

/-- The page states after a successful initialization and any keys and redraws,
    whatever the platform does in between. -/
inductive Reached (a : AdapterManager W) : PageMemPageState → Prop where
  | init {s s' : PageMemPageState} {w w' : W} {status : NxStatus}
    (h : pageMemControllerInit s a w = (some (status, s'), w')) (hok : nxUiError status = false) :
    Reached a s'
  | key {s s' : PageMemPageState} {key : NxUiKey} {w w' : W} {status : NxStatus} (hs : Reached a s)
    (h : pageMemControllerHandleKeyPress key s a w = (some (status, s'), w')) : Reached a s'
  | redraw {s s' : PageMemPageState} {w w' : W} (hs : Reached a s)
    (h : redrawIfNeeded a s w = (some s', w')) : Reached a s'

/-- The calls that ask for metadata. -/
def isLookup : AdapterCall → Bool
  | .getMemoryTypeAtAddress _ => true
  | .queryAccess _ _ => true
  | _ => false

section
variable {lookup : NxU64 → NxU32 × NxBool} {query : NxU64 → NxU64 → NxMemoryAccess}

/-- **A lookup leaves fresh metadata.** -/
theorem FixedLookups.fresh (ha : FixedLookups a lookup query)
    (h : pageMemControllerUpdatePageType s a w = (some (status, s'), w')) :
    status = .success ∧ Fresh lookup query s' := by
  obtain ⟨f, hf, hlookup⟩ := ha.type
  obtain ⟨g, hg, hquery⟩ := ha.access
  cases updatePageType_run h with
  | unavailable hnone =>
    rw [hf] at hnone
    cases hnone
  | failed hf' htype herr =>
    rw [hf] at hf'
    cases hf'
    obtain rfl : status = .success := congrArg Prod.fst (hlookup _ _ _ _ _ htype)
    cases herr
  | found hf' htype haccess =>
    rw [hf] at hf'
    cases hf'
    rw [hg] at haccess
    refine ⟨rfl, ?_, hquery _ _ _ _ _ _ haccess⟩
    exact congrArg Prod.snd (hlookup _ _ _ _ _ htype)

theorem SamePage.fresh (h : SamePage s s') (hs : Fresh lookup query s) : Fresh lookup query s' where
  type := by rw [h.type, h.found, h.address, hs.type]
  access := by rw [h.access, h.address, hs.access]

/-- The recorded type lookup. -/
def recordType (f : NxU64 → NxU32 × NxBool → Prog W (NxStatus × NxU32 × NxBool)) (ad : NxU64)
    (old : NxU32 × NxBool) : Prog (W × List AdapterCall) (NxStatus × NxU32 × NxBool) :=
  record (.getMemoryTypeAtAddress ad) (f ad old)

/-- The recorded access query. -/
def recordAccess (g : NxU64 → NxU64 → NxMemoryAccess → Prog W NxMemoryAccess) (ad n : NxU64)
    (old : NxMemoryAccess) : Prog (W × List AdapterCall) NxMemoryAccess :=
  record (.queryAccess ad n) (g ad n old)

/-- **The calls of a lookup**, which the recorder does not disturb. -/
theorem FixedLookups.calls (ha : FixedLookups a lookup query) {p p' : W × List AdapterCall}
    (h : pageMemControllerUpdatePageType s (traced a) p = (some (status, s'), p')) :
    p'.2 = p.2 ++ [.getMemoryTypeAtAddress s.cursorState.address,
      .queryAccess s.cursorState.address pageSize] := by
  obtain ⟨f, hf, hlookup⟩ := ha.type
  obtain ⟨g, hg, -⟩ := ha.access
  have hf₁ : (traced a).memory.getMemoryTypeAtAddress = some (recordType f) :=
    congrArg (Option.map recordType) hf
  have hg₁ : (traced a).memory.queryAccess = some (recordAccess g) :=
    congrArg (Option.map recordAccess) hg
  cases updatePageType_run h with
  | unavailable hnone =>
    rw [hf₁] at hnone
    cases hnone
  | @failed _ _ type found p₁ _ hf' htype herr =>
    rw [hf₁] at hf'
    cases hf'
    have hrun : f s.cursorState.address (s.pageUefiMemoryType, s.pageHasMemoryDescriptor) p.1 =
        (some (status, type, found), p₁.1) := by
      have hresult := congrArg (fun r => r.1) htype
      have hstate := congrArg (fun r => r.2.1) htype
      exact Prod.ext hresult hstate
    obtain rfl : status = .success := congrArg Prod.fst (hlookup _ _ _ _ _ hrun)
    cases herr
  | found hf' htype haccess =>
    rw [hf₁] at hf'
    cases hf'
    rw [hg₁] at haccess
    have htypeCalls := congrArg (fun r => r.2.2) htype
    have haccessCalls := congrArg (fun r => r.2.2) haccess
    rw [← haccessCalls]
    simp only [recordType, recordAccess, record] at htypeCalls ⊢
    rw [← htypeCalls, List.append_assoc]
    rfl

/-- **Cached metadata is never stale.**  After a successful initialization and
    any keys, the type, the descriptor flag and the access are those of the page.
    A key looks the type and the access of the page up once if it has changed the
    page, and never otherwise. -/
theorem metadata_fresh (ha : FixedLookups a lookup query) :
    (∀ s, Reached a s → Fresh lookup query s) ∧
    ∀ (key : NxUiKey) (s : PageMemPageState) (p : W × List AdapterCall) status s' p',
      pageMemControllerHandleKeyPress key s (traced a) p = (some (status, s'), p') →
      ∃ calls, p'.2 = p.2 ++ calls ∧
        calls.filter isLookup =
          if s'.cursorState.address ≠ s.cursorState.address then
            [.getMemoryTypeAtAddress s'.cursorState.address,
              .queryAccess s'.cursorState.address pageSize]
          else [] := by
  constructor
  · intro s hs
    induction hs with
    | init h hok =>
      obtain ⟨w₁, descriptors, w₂, -, -, -, -, -, -, s₁, htype⟩ :=
        pageMemControllerInit_success h hok
      exact (ha.fresh htype).2
    | @key s s' key w w' status hs h ih =>
      rcases (handleKeyPress_run h).stays_or_moves (a.serves_any fun _ => True)
        (fun _ _ => trivial) (fun _ _ => trivial) with ⟨hsame, -⟩ | ⟨s₁, w₁, -, -, htype⟩
      · exact hsame.fresh ih
      · exact (ha.fresh htype).2
    | redraw hs h ih =>
      rw [redrawIfNeeded_eq h]
      exact ⟨ih.type, ih.access⟩
  · intro key s p status s' p' h
    have hcalls := traced_extends a fun c => isLookup c = false
    have hsilent : ∀ c, AdapterCall.Silent c → isLookup c = false := by
      intro c hc
      cases c <;> first | rfl | cases hc
    have hedit := hcalls.pageMemActionEditValue s hsilent (fun _ _ _ => rfl) (fun _ => rfl)
      fun _ => rfl
    rcases (handleKeyPress_run h).stays_or_moves hcalls hsilent (fun _ => hedit) with
      ⟨hsame, ⟨calls, heq, hnone⟩, -⟩ | ⟨s₁, p₁, hmove, ⟨calls, heq, hnone⟩, htype⟩
    · refine ⟨calls, heq, ?_⟩
      rw [if_neg (not_not.2 hsame.address), List.filter_eq_nil_iff]
      exact fun c hc => by rw [hnone c hc]; exact Bool.false_ne_true
    · have haddress := (updatePageType_sameView htype).cursor
      rw [haddress, if_pos hmove.state.1]
      refine ⟨_, (ha.calls htype).trans (by rw [heq, List.append_assoc]), ?_⟩
      rw [List.filter_append, List.filter_eq_nil_iff.2
        (fun c hc => by rw [hnone c hc]; exact Bool.false_ne_true)]
      rfl

end

theorem metadata_fresh_next :
    ∃ calls, (pageMemControllerHandleKeyPress (charKey 'n') pageState1000
        (traced (lookupAdapters fun _ => .success)) (desk [] [], [])).2.2 = calls ∧
      calls.filter isLookup = [.getMemoryTypeAtAddress 0x1100, .queryAccess 0x1100 256] := by
  obtain ⟨calls, hcalls, hfilter⟩ := (metadata_fresh lookupAdapters_fixed).2 (charKey 'n')
    pageState1000 (desk [] [], []) .success _ _ rfl
  exact ⟨calls, hcalls, hfilter⟩

/-! ## Failed keys -/

/-- The type lookup of the page is missing, or it fails. -/
def LookupFails (a : AdapterManager W) (s : PageMemPageState) (w : W) : Prop :=
  ∀ f, a.memory.getMemoryTypeAtAddress = some f → ∃ status type found w',
    f s.cursorState.address (s.pageUefiMemoryType, s.pageHasMemoryDescriptor) w =
      (some (status, type, found), w') ∧ nxUiError status = true

/-- The key moves to another page, whose type lookup fails. -/
def MoveFails (a : AdapterManager W) (w : W) (key : NxUiKey) (s : PageMemPageState) : Prop :=
  ∃ s₁ w₁, MovesPage a w key s s₁ w₁ ∧ LookupFails a s₁ w₁

/-- A lookup that returns an error has failed, and only such a one. -/
theorem lookupFails_iff (h : pageMemControllerUpdatePageType s a w = (some (status, s'), w')) :
    LookupFails a s w ↔ status ≠ .success := by
  cases updatePageType_run h with
  | unavailable hnone =>
    refine iff_of_true (fun f hf => ?_) (by decide)
    rw [hnone] at hf
    cases hf
  | failed hf htype herr =>
    refine iff_of_true (fun f hf' => ?_) (by rintro rfl; cases herr)
    rw [hf] at hf'
    cases hf'
    exact ⟨_, _, _, _, htype, herr⟩
  | found hf htype =>
    refine iff_of_false (fun hfails => ?_) fun h => h rfl
    obtain ⟨_, _, _, _, htype', herr⟩ := hfails _ hf
    rw [htype] at htype'
    cases htype'
    cases herr

/-- **A failed key leaves the page consistent**, except where it moves to another
    page and the lookup of that page fails: the page is then the new one, under
    the metadata of the old one. -/
theorem failed_key_page
    (h : pageMemControllerHandleKeyPress key s a w = (some (status, s'), w')) :
    (status ≠ .success → SamePage s s') ↔ ¬ MoveFails a w key s := by
  constructor
  · rintro hsame ⟨s₁, w₁, hmove, hfails⟩
    rw [hmove.handleKeyPress] at h
    refine hmove.state.1 ?_
    rw [← (updatePageType_sameView h).cursor]
    exact (hsame ((lookupFails_iff h).1 hfails)).address
  · intro hno hstatus
    rcases (handleKeyPress_run h).stays_or_moves (a.serves_any fun _ => True)
      (fun _ _ => trivial) (fun _ _ => trivial) with ⟨hsame, -⟩ | ⟨s₁, w₁, hmove, -, htype⟩
    · exact hsame
    · exact absurd ⟨s₁, w₁, hmove, (lookupFails_iff htype).2 hstatus⟩ hno

theorem failed_key_page_edit :
    ¬ MoveFails (lookupAdapters fun _ => .deviceError) (desk [] []) (charKey 'e') pageState1000 :=
  (failed_key_page (rfl : pageMemControllerHandleKeyPress (charKey 'e') pageState1000
    (lookupAdapters fun _ => .deviceError) (desk [] []) = (some (.aborted, _), _))).1
    fun _ => ⟨rfl, rfl, rfl, rfl⟩

/-- The lookup of the next page fails: its bytes are shown under the access of the
    old page. -/
theorem failed_move_mixes_pages :
    Fresh deskLookup deskQuery pageState1000 ∧
    ∃ s' w', pageMemControllerHandleKeyPress (charKey 'n') pageState1000
        (lookupAdapters fun address => if address = 0x1100 then .deviceError else .success)
        (desk [] []) = (some (.deviceError, s'), w') ∧
      s'.cursorState.address = 0x1100 ∧ s'.pageAccess = deskQuery 0x1000 pageSize ∧
      ¬ SamePage pageState1000 s' := by
  refine ⟨⟨rfl, rfl⟩, _, _, rfl, by decide, rfl, fun h => ?_⟩
  have haddress := h.address
  revert haddress
  decide

end UefiNexus
