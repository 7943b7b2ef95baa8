/-
  The application.

  * A run that returns is a session (`Session`): the menu and the page it has
    selected, again and again, and the menu at which the user has quit.  Whatever
    the pages do, the application leaves the console in the mode it has found
    (`application_restores`);
  * three escapes leave the application, wherever it is (`three_escapes_leave`).
-/
import Mathlib.Data.List.Induction
import UefiNexus.Application.App
import UefiNexus.Proof.Leaving
import UefiNexus.Proof.Menu

namespace UefiNexus

open Input (Steady Ends Left)

variable {fw : AppFirmware} {registry : PageRegistry AppWorld} {w w' : AppWorld}

/-! ## Sessions -/

/-- The page number `i` runs. -/
def PageRuns (registry : PageRegistry AppWorld) (i : NxIntn) (w w' : AppWorld) : Prop :=
  callEntryPoint ((registry.pages[i.toNat]?).bind (·.entryPoint)) w = (some (), w')

/-- A run of `AppRun`: the pages that have been selected, in order. -/
inductive Session (registry : PageRegistry AppWorld) : AppWorld → List NxIntn → AppWorld → Prop
  | quit {w w' : AppWorld} : onMachine (pageMenu (some registry)) w = (some (-1), w') →
      Session registry w [] w'
  | page {w w₁ w₂ w' : AppWorld} {i : NxIntn} {is : List NxIntn} :
      onMachine (pageMenu (some registry)) w = (some i, w₁) → i.toNat < registry.pages.length →
      PageRuns registry i w₁ w₂ → Session registry w₂ is w' → Session registry w (i :: is) w'

theorem onMachine_eq_some {α : Type} {m : Prog UefiWorld α} {a : α} :
    onMachine m w = (some a, w') ↔
      m w.machine = (some a, w'.machine) ∧ w' = { w with machine := w'.machine } := by
  rw [onMachine, Prod.mk.injEq]
  constructor
  · rintro ⟨ha, rfl⟩
    exact ⟨Prod.ext ha rfl, rfl⟩
  · rintro ⟨hm, hw⟩
    rw [hm]
    exact ⟨rfl, hw.symm⟩

/-- A menu without pages returns at once. -/
theorem pageMenu_nil {W : Type} {registry : PageRegistry W} (hpages : registry.pages = [])
    (w : UefiWorld) : pageMenu (some registry) w = (some (-1), w) := by
  have hcount : registry.pageCount = 0 := by
    rw [PageRegistry.pageCount, hpages]
    rfl
  rw [pageMenu, if_pos hcount]
  rfl

/-- The index the menu returns is a page's, or the user has quit. -/
theorem menu_index {i : NxIntn} (h : onMachine (pageMenu (some registry)) w = (some i, w')) :
    i = -1 ∨ i.toNat < registry.pages.length ∧ i.slt 0 = false := by
  by_cases hpages : registry.pages = []
  · have hmenu := (onMachine_eq_some.1 h).1
    rw [pageMenu_nil hpages] at hmenu
    exact Or.inl (Option.some.inj (congrArg Prod.fst hmenu)).symm
  have houtcome := pageMenu_outcome registry hpages w.machine
  rw [(onMachine_eq_some.1 h).1] at houtcome
  rcases houtcome with ⟨before, key, j, w₁, hr, -, hafter, hj⟩ | ⟨hr, -⟩
  · obtain rfl : i = j := Option.some.inj (congrArg Prod.fst hr)
    exact hj.index hafter.lt registry.fits
  · cases hr

/-- **The run of the application** is a session. -/
theorem appRun_session :
    ∀ (fuel : ℕ) (w w' : AppWorld) (status : EfiStatus),
      appRun (some registry) fuel w = (some status, w') →
      status = efiSuccess ∧ ∃ is, Session registry w is w'
  | 0, w, w', status, h => by cases h
  | fuel + 1, w, w', status, h => by
    rw [appRun, Input.loop_pure_succ, appRunServe, Prog.seq_assoc] at h
    obtain ⟨i, w₁, hmenu, h⟩ := Prog.bind_eq_some.1 h
    rcases menu_index hmenu with rfl | ⟨hi, hslt⟩
    · rw [if_pos (by decide)] at h
      obtain ⟨rfl, rfl⟩ := Prog.pure_eq_some.1 h
      exact ⟨rfl, [], .quit hmenu⟩
    · rw [hslt, if_neg Bool.false_ne_true] at h
      have hentry : (some registry).bind (entryPointAt i) =
          (registry.pages[i.toNat]?).bind (·.entryPoint) :=
        if_pos (BitVec.lt_def.2 (pageCount_toNat registry ▸ hi))
      rw [hentry, Prog.seq_assoc] at h
      obtain ⟨_, w₂, hpage, h⟩ := Prog.bind_eq_some.1 h
      obtain ⟨rfl, is, hsession⟩ := appRun_session fuel w₂ w' status h
      exact ⟨rfl, i :: is, .page hmenu hi hpage hsession⟩

/-! ## The console -/

/-- `ConOut->Mode->Attribute` is an attribute the device accepts. -/
theorem attribute_le (hmode : fw.ModeDocumented) (ops : List ConsoleOp) :
    fw.attr ops ≤ 0x7F := by
  induction ops using List.reverseRecOn with
  | nil => exact hmode.attr_le
  | append_singleton ops op ih =>
    by_cases hset : ∃ attr, op = .setAttribute attr
    · obtain ⟨attr, rfl⟩ := hset
      rw [hmode.setAttribute]
      split_ifs with hle
      · have hlt : attr.toNat ≤ 127 := BitVec.le_def.1 hle
        rw [BitVec.le_def, BitVec.toNat_setWidth]
        show attr.toNat % 2 ^ 32 ≤ 127
        omega
      · exact ih
    · rw [hmode.others ops op fun attr hop => hset ⟨attr, hop⟩]
      exact ih

/-- An accepted attribute, as `TuiSetAttribute` gets it. -/
theorem attribute_signExtend (hmode : fw.ModeDocumented) {attr : BitVec 32} (h : attr ≤ 0x7F)
    (ops : List ConsoleOp) : fw.attr (ops ++ [.setAttribute (attr.signExtend 64)]) = attr := by
  have hle : attr.toNat ≤ 127 := BitVec.le_def.1 h
  have hmsb : attr.msb = false := by
    rw [BitVec.msb_eq_false_iff_two_mul_lt]
    omega
  have hvalue : (attr.signExtend 64).toNat = attr.toNat := by
    rw [BitVec.signExtend_eq_setWidth_of_msb_false hmsb, BitVec.toNat_setWidth]
    omega
  rw [hmode.setAttribute, if_pos (BitVec.le_def.2 (hvalue ▸ hle))]
  refine BitVec.eq_of_toNat_eq ?_
  rw [BitVec.toNat_setWidth, hvalue]
  omega

/-- A device shows the cursor again as it has done before. -/
theorem cursorVisible_restored (hmode : fw.ModeDocumented) (found cursor : List Bool) :
    fw.cursorVisible (cursor ++ [fw.cursorVisible found]) = fw.cursorVisible found := by
  rcases hmode.cursor with hcontrol | hrefuses
  · exact hcontrol _ _
  · have hboot : ∀ cursor, fw.cursorVisible cursor = fw.cursorVisible [] := by
      intro cursor
      induction cursor using List.reverseRecOn with
      | nil => rfl
      | append_singleton cursor visible ih =>
        rw [hrefuses]
        exact ih
    rw [hboot, hboot found]

/-- The application before its first menu. -/
def opened (w : AppWorld) : AppWorld where
  machine := { w.machine with console := w.machine.console ++ [.clearScreen] }
  cursor := w.cursor ++ [false]

/-- The application at its end, with the console mode it has found. -/
def closed (fw : AppFirmware) (found w : AppWorld) : AppWorld where
  machine :=
    { w.machine with
      console := w.machine.console ++
        [.setAttribute ((modeAttribute fw found).signExtend 64), .clearScreen] }
  cursor := w.cursor ++ [modeCursorVisible fw found]

theorem appInit_apply (hcon : fw.conOut = true) (w : AppWorld) :
    appInit fw w =
      (some (efiSuccess, some ⟨modeCursorVisible fw w, modeAttribute fw w⟩), opened w) := by
  rw [appInit, if_neg (fun h => h hcon)]
  rfl

theorem appDeinit_apply (hcon : fw.conOut = true) (found w : AppWorld) :
    appDeinit fw ⟨modeCursorVisible fw found, modeAttribute fw found⟩ w =
      (some (), closed fw found w) := by
  rw [appDeinit, if_neg (fun h => h hcon), closed]
  simp only [tuiEnableCursor, onMachine, tuiSetAttribute, tuiClearScreen, consoleRequest,
    Prog.modify, bind, List.append_assoc, List.cons_append, List.nil_append]

/-- The mode at the end is the mode at the start. -/
theorem closed_mode (hmode : fw.ModeDocumented) (found w : AppWorld) :
    modeCursorVisible fw (closed fw found w) = modeCursorVisible fw found ∧
      modeAttribute fw (closed fw found w) = modeAttribute fw found := by
  refine ⟨cursorVisible_restored hmode _ _, ?_⟩
  have hclear : ∀ attr : NxUintn, ConsoleOp.clearScreen ≠ .setAttribute attr := by
    intro attr h
    cases h
  have hsplit : [ConsoleOp.setAttribute ((modeAttribute fw found).signExtend 64), .clearScreen] =
      [.setAttribute ((modeAttribute fw found).signExtend 64)] ++ [.clearScreen] := rfl
  rw [modeAttribute, closed]
  dsimp only
  rw [hsplit, ← List.append_assoc, hmode.others _ _ hclear]
  exact attribute_signExtend hmode (attribute_le hmode _) _

/-- **The application restores the console.**  Without a console it returns
    `EFI_UNSUPPORTED` and does nothing.  Otherwise, whatever the pages do, a run that
    returns is a session, returns `EFI_SUCCESS`, and ends with a clear screen in the
    mode the application has found: the cursor and the attribute. -/
theorem application_restores (fw : AppFirmware) (registry : PageRegistry AppWorld) (fuel : ℕ)
    (w : AppWorld) :
    (fw.conOut = false → uefiNexusMain fw (some registry) fuel w = (some efiUnsupported, w)) ∧
    (fw.conOut = true → fw.ModeDocumented → ∀ w' status,
      uefiNexusMain fw (some registry) fuel w = (some status, w') →
        status = efiSuccess ∧ (∃ is v, Session registry (opened w) is v ∧ w' = closed fw w v) ∧
        modeCursorVisible fw w' = modeCursorVisible fw w ∧
        modeAttribute fw w' = modeAttribute fw w ∧ [.clearScreen] <:+ w'.machine.console) := by
  constructor
  · intro hcon
    have hinit : appInit fw w = (some (efiUnsupported, none), w) := by
      rw [appInit, hcon]
      rfl
    rw [uefiNexusMain, Prog.bind_of_some hinit]
    rfl
  · intro hcon hmode w' status h
    rw [uefiNexusMain, Prog.bind_of_some (appInit_apply hcon w)] at h
    obtain ⟨status', v, hrun, h⟩ := Prog.bind_eq_some.1 h
    obtain ⟨rfl, is, hsession⟩ := appRun_session fuel _ v status' hrun
    rw [Prog.bind_of_some (appDeinit_apply hcon w v)] at h
    obtain ⟨rfl, rfl⟩ := Prog.pure_eq_some.1 h
    obtain ⟨hcursor, hattr⟩ := closed_mode hmode w v
    refine ⟨rfl, ⟨is, v, hsession, rfl⟩, hcursor, hattr, ?_⟩
    exact (List.suffix_cons _ _).trans (List.suffix_append _ _)

/-- The attribute a request sets. -/
def setsAttribute : ConsoleOp → Option (BitVec 32)
  | .setAttribute attr => if attr ≤ 0x7F then some (attr.setWidth 32) else none
  | _ => none

/-- A console with a cursor, and a machine with one page of memory. -/
def plainApp : AppFirmware where
  toFirmware := oneRangeFirmware
  conOut := true
  cursorVisible cursor := cursor.getLast?.getD true
  attr ops := (ops.filterMap setsAttribute).getLast?.getD 0x07
  stack _ := ⟨.viewing, ⟨0, 0, 0⟩, ⟨none⟩, 0, false, ⟨0, 0, false, false, false, false⟩, false⟩

theorem plainApp_mode : plainApp.ModeDocumented where
  cursor := by
    refine Or.inl fun cursor visible => ?_
    simp [plainApp]
  attr_le := by decide
  setAttribute ops attr := by
    simp only [plainApp, List.filterMap_append, List.filterMap_cons, setsAttribute]
    split_ifs <;> simp
  others ops op hop := by
    have hnone : setsAttribute op = none := by
      cases op with
      | setAttribute attr => exact absurd rfl (hop attr)
      | _ => rfl
    show ((ops ++ [op]).filterMap setsAttribute).getLast?.getD 0x07 = _
    rw [List.filterMap_append, List.filterMap_cons_none hnone, List.filterMap_nil, List.append_nil]
    rfl

/-- A page that shows the cursor and sets an attribute. -/
def paintingPages : PageRegistry AppWorld where
  pages := [⟨wide "Paint", some do
    tuiEnableCursor true
    onMachine (tuiSetAttribute 0x1F)⟩]
  fits := mPages_fits

/-- The application, with Enter and ESC to come. -/
def enterEscWorld : AppWorld where
  machine := .boot (fun _ => 0) [⟨0, charCarriageReturn⟩, escKey]
  cursor := []

theorem application_restores_painting :
    modeCursorVisible plainApp (uefiNexusMain plainApp (some paintingPages) 3 enterEscWorld).2 =
        true ∧
      modeAttribute plainApp (uefiNexusMain plainApp (some paintingPages) 3 enterEscWorld).2 =
        0x07 := by
  obtain ⟨-, -, hcursor, hattr, -⟩ := (application_restores plainApp paintingPages 3
    enterEscWorld).2 rfl plainApp_mode (uefiNexusMain plainApp (some paintingPages) 3 enterEscWorld).2
      efiSuccess (Prod.ext (by decide +kernel) rfl)
  exact ⟨hcursor, hattr⟩

/-! ## Leaving the application -/

/-- The keystrokes of the application. -/
def appKeys (w : AppWorld) : List EfiInputKey := w.machine.keys

theorem escKey_answer {count sel : ℕ} {i : NxIntn} (h : MenuAnswer count sel escKey i) : i = -1 := by
  cases h with
  | digit d hd _ hc =>
    have hzero : (0 : NxUiChar).toNat = 49 + d := by
      rw [← (digit_value hd).1, ← hc]
      rfl
    exact absurd hzero (by rw [show (0 : NxUiChar).toNat = 0 from rfl]; omega)
  | enter hc => exact absurd hc (by decide)
  | esc => rfl

theorem escKey_not_passes (count sel : ℕ) : ¬ Passes count sel escKey := by
  rintro (h | h)
  · exact h rfl
  · exact h _ (.esc rfl)

/-- **The menu can be left** with one escape; a page that is opened leaves all of
    them. -/
theorem menu_left {W : Type} (registry : PageRegistry W) (hpages : registry.pages ≠ [])
    {w : UefiWorld} {ks rest : List EfiInputKey} {n : ℕ}
    (hw : w.keys = ks ++ (List.replicate n escKey ++ rest)) (hn : 1 ≤ n) :
    ∃ i w', pageMenu (some registry) w = (some i, w') ∧
      (i = -1 ∧ w'.keys = List.replicate (n - 1) escKey ++ rest ∨
        ∃ xs, xs.length < ks.length ∧ xs <:+ ks ∧
          w'.keys = xs ++ (List.replicate n escKey ++ rest)) := by
  obtain ⟨n, rfl⟩ := Nat.exists_eq_add_of_le' hn
  rcases pageMenu_outcome registry hpages w with
    ⟨before, key, i, w', hr, hkeys, hafter, hi⟩ | ⟨-, -, hafter⟩
  · refine ⟨i, _, hr, ?_⟩
    have hsplit : before ++ key :: (pageMenu (some registry) w).2.keys =
        ks ++ escKey :: (List.replicate n escKey ++ rest) := by
      rw [← hkeys, ← List.cons_append, ← List.replicate_succ]
      exact hw
    have hhere : ∀ left, before = ks → key :: left = escKey :: (List.replicate n escKey ++ rest) →
        i = -1 ∧ left = List.replicate (n + 1 - 1) escKey ++ rest := by
      rintro left - htail
      obtain ⟨rfl, rfl⟩ := List.cons.inj htail
      exact ⟨escKey_answer hi, rfl⟩
    rcases List.append_eq_append_iff.1 hsplit with ⟨zs, hks, htail⟩ | ⟨zs, hbefore, htail⟩
    · cases zs with
      | nil => exact Or.inl (hhere _ (by rw [hks, List.append_nil]) htail)
      | cons z zs =>
        obtain ⟨rfl, hleft⟩ := List.cons.inj htail
        refine Or.inr ⟨zs, ?_, ?_, ?_⟩
        · rw [hks, List.length_append, List.length_cons]
          omega
        · rw [hks]
          exact (List.suffix_cons key zs).trans (List.suffix_append _ _)
        · rw [List.replicate_succ, List.cons_append]
          exact hleft
    · cases zs with
      | nil => exact Or.inl (hhere _ (by rw [hbefore, List.append_nil]) htail.symm)
      | cons z zs =>
        obtain ⟨rfl, -⟩ := List.cons.inj htail
        exact absurd (hafter.passes ks escKey zs hbefore) (escKey_not_passes _ _)
  · -- the escape cannot have passed
    have hall : w.keys = ks ++ escKey :: (List.replicate n escKey ++ rest) := by
      rw [hw, List.replicate_succ, List.cons_append]
    exact absurd (hafter.passes ks escKey _ hall) (escKey_not_passes _ _)

/-- The entry point of PageMem. -/
theorem pageMemLayered_left (fw : AppFirmware) {fuel : ℕ} {w : AppWorld}
    {ks rest : List EfiInputKey} {n : ℕ}
    (hw : appKeys w = ks ++ (List.replicate n escKey ++ rest)) (hn : 2 ≤ n)
    (hfuel : ks.length < fuel) :
    ∃ w', pageMemLayered fw fuel w = (some (), w') ∧ Left escKey ks n rest 2 (appKeys w') := by
  have hkeys : w.machine.keys = ks ++ (List.replicate n escKey ++ rest) := hw
  obtain ⟨status, v, hrun, hleft⟩ :=
    @controllerRun_left fw.toFirmware (fw.stack w.machine.inits) _ _ _ _ _ hkeys hn hfuel
  have hpage : onMachine (pageMemControllerRun (uefiAdapters fw.toFirmware)
      (fw.stack w.machine.inits) fuel) w = (some status, { w with machine := v }) :=
    onMachine_eq_some.2 ⟨hrun, rfl⟩
  refine ⟨{ w with machine := v }, ?_, hleft⟩
  rw [pageMemLayered, Prog.bind_of_some (Prog.get_apply w), Prog.bind_of_some hpage]
  rfl

theorem mPages_ne_nil (fw : AppFirmware) (fuel : ℕ) : (mPages fw fuel).pages ≠ [] :=
  List.cons_ne_nil _ _

/-- The entry point of any index. -/
theorem callEntryPoint_left (fw : AppFirmware) {fuel : ℕ} (i : NxIntn) {w : AppWorld}
    {ks rest : List EfiInputKey} {n : ℕ}
    (hw : appKeys w = ks ++ (List.replicate n escKey ++ rest)) (hn : 2 ≤ n)
    (hfuel : ks.length < fuel) :
    ∃ w', callEntryPoint ((getPageRegistry fw fuel).bind (entryPointAt i)) w = (some (), w') ∧
      Left escKey ks n rest 2 (appKeys w') := by
  have hnone : ∃ w', callEntryPoint none w = (some (), w') ∧
      Left escKey ks n rest 2 (appKeys w') := by
    refine ⟨w, rfl, ?_⟩
    rw [hw]
    exact (Left.refl ks n rest).mono List.suffix_rfl (Nat.zero_le 2)
  rw [getPageRegistry, Option.bind_some, entryPointAt]
  split_ifs
  · rcases hpage : (mPages fw fuel).pages[i.toNat]? with _ | page
    · exact hnone
    · obtain rfl := List.mem_singleton.1 (List.mem_of_getElem? hpage)
      exact pageMemLayered_left fw hw hn hfuel
  · exact hnone

/-- A turn of the application. -/
theorem appRunServe_left (fw : AppFirmware) {fuel : ℕ} {w : AppWorld} {k : EfiInputKey}
    {ks rest : List EfiInputKey} {n : ℕ}
    (hw : appKeys w = k :: (ks ++ (List.replicate n escKey ++ rest))) (hn : 2 ≤ n)
    (hfuel : ks.length < fuel) :
    ∃ r w', appRunServe (getPageRegistry fw fuel) w = (some r, w') ∧
      Left escKey ks n rest 2 (appKeys w') := by
  have hkeys : w.machine.keys = (k :: ks) ++ (List.replicate n escKey ++ rest) := hw
  obtain ⟨i, v, hrun, hcases⟩ :=
    menu_left (mPages fw fuel) (mPages_ne_nil fw fuel) hkeys (Nat.le_trans (by decide) hn)
  have hmenu : onMachine (pageMenu (getPageRegistry fw fuel)) w =
      (some i, { w with machine := v }) := onMachine_eq_some.2 ⟨hrun, rfl⟩
  rw [appRunServe, Prog.bind_of_some hmenu]
  rcases hcases with ⟨rfl, hleft⟩ | ⟨xs, hlt, hsuffix, hxs⟩
  · obtain ⟨n, rfl⟩ := Nat.exists_eq_add_of_le' (Nat.le_trans (Nat.le_succ 1) hn)
    refine ⟨_, _, rfl, ?_⟩
    rw [appKeys, hleft]
    exact (Left.escape n rest).mono List.nil_suffix (Nat.le_succ 1)
  · have hks : xs <:+ ks := by
      rcases List.suffix_cons_iff.1 hsuffix with rfl | h
      · exact absurd hlt (Nat.lt_irrefl _)
      · exact h
    split_ifs
    · refine ⟨_, _, rfl, xs, n, hxs, hks, Nat.le_refl n, Nat.le_add_right n 2, .inr rfl⟩
    · obtain ⟨w', hpage, hleft⟩ := callEntryPoint_left fw i (w := { w with machine := v }) hxs hn
        (Nat.lt_of_le_of_lt hks.length_le hfuel)
      exact ⟨.inl (), w', by rw [Prog.bind_of_some hpage]; rfl, hleft.mono hks (Nat.le_refl 2)⟩

/-- The menu at an escape. -/
theorem appRunServe_escape (fw : AppFirmware) {fuel : ℕ} {w : AppWorld} {ks : List EfiInputKey}
    (hw : appKeys w = escKey :: ks) :
    ∃ a w', appRunServe (getPageRegistry fw fuel) w = (some (.inr a), w') ∧ appKeys w' = ks := by
  have hkeys : w.machine.keys = [] ++ (List.replicate 1 escKey ++ ks) := hw
  obtain ⟨i, v, hrun, hcases⟩ :=
    menu_left (mPages fw fuel) (mPages_ne_nil fw fuel) hkeys (Nat.le_refl 1)
  have hmenu : onMachine (pageMenu (getPageRegistry fw fuel)) w =
      (some i, { w with machine := v }) := onMachine_eq_some.2 ⟨hrun, rfl⟩
  rcases hcases with ⟨rfl, hleft⟩ | ⟨xs, hlt, -⟩
  · refine ⟨efiSuccess, { w with machine := v }, ?_, hleft⟩
    rw [appRunServe, Prog.bind_of_some hmenu]
    rfl
  · exact absurd hlt (Nat.not_lt_zero _)

/-- **Three escapes leave the application**, whatever has been typed before, whatever
    the memory map and the memory are, and whatever the page state is made of: a
    prompt or a list that is open, the page, and the menu. -/
theorem three_escapes_leave (fw : AppFirmware) (hcon : fw.conOut = true) (w : AppWorld)
    (ks rest : List EfiInputKey) (fuel : ℕ)
    (hkeys : w.machine.keys = ks ++ [escKey, escKey, escKey] ++ rest) (hfuel : ks.length < fuel) :
    ∃ w', uefiNexusMain fw (getPageRegistry fw fuel) fuel w = (some efiSuccess, w') ∧
      rest <:+ w'.machine.keys := by
  have hopened : appKeys (opened w) = ks ++ (List.replicate 3 escKey ++ rest) := by
    rw [List.append_assoc] at hkeys
    exact hkeys
  have hloop : ∃ status v,
      Prog.loop pure (fun _ => appRunServe (getPageRegistry fw fuel)) fuel () (opened w) =
        (some status, v) ∧ Left escKey ks 3 rest (2 + 1) (appKeys v) :=
    Ends.loop (I := fun _ => True) (fun s _ w => ⟨s, w, rfl, trivial, rfl⟩)
      (fun _ _ w k ks n rest hw hn hN => appRunServe_left fw hw hn hN)
      (fun _ _ _ _ _ _ => trivial) (fun _ _ w ks hw => appRunServe_escape fw hw)
      fuel () trivial (opened w) ks 3 rest hopened (Nat.le_refl 3) hfuel hfuel
  obtain ⟨status, v, hloop, hleft⟩ := hloop
  have hrun : appRun (getPageRegistry fw fuel) fuel (opened w) = (some status, v) := hloop
  obtain ⟨rfl, -⟩ := appRun_session fuel _ v status hrun
  refine ⟨closed fw w v, ?_, ?_⟩
  · rw [uefiNexusMain, Prog.bind_of_some (appInit_apply hcon w)]
    show (appRun (getPageRegistry fw fuel) fuel >>= _) (opened w) = _
    rw [Prog.bind_of_some hrun, Prog.bind_of_some (appDeinit_apply hcon w v)]
    rfl
  · obtain ⟨xs, n', hv, -⟩ := hleft
    show rest <:+ appKeys v
    rw [hv, ← List.append_assoc]
    exact List.suffix_append _ _

/-- Enter, `g` and a digit, and three escapes. -/
def gotoEscapesWorld : AppWorld where
  machine := .boot (fun _ => 0)
    ([⟨0, charCarriageReturn⟩, ⟨0, L 'g'⟩, ⟨0, L '7'⟩] ++ [escKey, escKey, escKey] ++ [])
  cursor := []

theorem three_escapes_leave_goto :
    ∃ w', uefiNexusMain plainApp (getPageRegistry plainApp 4) 4 gotoEscapesWorld =
      (some efiSuccess, w') := by
  obtain ⟨w', h, -⟩ := three_escapes_leave plainApp rfl gotoEscapesWorld
    [⟨0, charCarriageReturn⟩, ⟨0, L 'g'⟩, ⟨0, L '7'⟩] [] 4 rfl (by decide)
  exact ⟨w', h⟩

end UefiNexus
