/-
  The application is the tool.

  A turn of the application, its menu and the page that is opened, is a step of the
  tool (`application_refines`), and the application returns where the tool is left
  (`application_quits`).  So it leaves behind what the tool does
  (`application_is_tool`).
-/
import UefiNexus.Proof.Opened

namespace UefiNexus

open Refine (ending)

/-! ## The menu -/

section
variable {W : Type} {registry : PageRegistry W}

/-- A key of a menu with one page. -/
theorem pageMenuServe_onePage (hone : registry.pages.length = 1) {w : UefiWorld} {key : EfiInputKey}
    {keys : List EfiInputKey} (hkeys : w.keys = key :: keys) :
    pageMenuServe registry 0 w =
      (some (if key.unicodeChar = L '1' ∨ key.unicodeChar = charCarriageReturn then .inr 0
        else if key.scanCode = scanEsc then .inr (-1) else .inl 0), { w with keys := keys }) := by
  have hcount : registry.pageCount = 1 := by
    apply BitVec.eq_of_toNat_eq
    rw [pageCount_toNat, hone]
    rfl
  have hread : tuiReadKey w = (some key, { w with keys := keys }) := by
    rw [tuiReadKey, hkeys]
  have hdigit : (key.unicodeChar ≥ L '1' ∧ key.unicodeChar ≤ L '9' ∧
      (key.unicodeChar - L '1').setWidth 64 < registry.pageCount) ↔ key.unicodeChar = L '1' := by
    rw [digitTest_iff, hone]
    constructor
    · rintro ⟨d, -, hd, hc⟩
      obtain rfl : d = 0 := by omega
      exact hc
    · intro hc
      exact ⟨0, by omega, by omega, hc⟩
  rw [pageMenuServe, Prog.bind_of_some hread]
  rw [if_neg fun h => absurd h.2 (by decide), hcount, if_neg fun h => absurd h.2 (by decide)]
  rw [← hcount]
  simp only [hdigit]
  by_cases h1 : key.unicodeChar = L '1'
  · rw [if_pos h1, if_pos (Or.inl h1), h1]
    rfl
  by_cases henter : key.unicodeChar = charCarriageReturn
  · rw [if_neg h1, if_pos henter, if_pos (Or.inr henter)]
    rfl
  rw [if_neg h1, if_neg henter, if_neg (not_or_intro h1 henter)]
  split_ifs <;> rfl

/-- The keys of a menu with one page. -/
theorem menuLoop_onePage (hone : registry.pages.length = 1) :
    ∀ (keys : List EfiInputKey) (w : UefiWorld), w.keys = keys →
      Prog.done (Prog.loop pure (pageMenuServe registry) keys.length 0) w =
        (Tool.menu keys).map fun r => (if r.1 then 0 else -1, { w with keys := r.2 }) := by
  intro keys
  induction keys with
  | nil =>
    intro w _
    rfl
  | cons key keys ih =>
    intro w hkeys
    have hserve := pageMenuServe_onePage hone hkeys
    rw [List.length_cons, Input.loop_pure_succ, Prog.done_bind, Prog.done_eq_some.2 hserve,
      Option.bind_some]
    unfold Tool.menu
    by_cases hopen : key.unicodeChar = L '1' ∨ key.unicodeChar = charCarriageReturn
    · rw [if_pos hopen, if_pos hopen]
      rfl
    by_cases hesc : key.scanCode = scanEsc
    · rw [if_neg hopen, if_pos hesc, if_neg hopen, if_pos hesc]
      rfl
    · rw [if_neg hopen, if_neg hesc, if_neg hopen, if_neg hesc]
      exact ih { w with keys := keys } rfl

/-- A menu with one page. -/
theorem pageMenu_onePage (hone : registry.pages.length = 1) (w : UefiWorld) :
    Prog.done (pageMenu (some registry)) w =
      (Tool.menu w.keys).map fun r => (if r.1 then 0 else -1,
        { w with console := w.console ++ menuScreen registry 0, keys := r.2 }) := by
  have hcount : registry.pageCount ≠ 0 := by
    intro h
    have := pageCount_toNat registry
    rw [h, hone] at this
    cases this
  have hdraw : drawMenu registry (BitVec.ofNat 64 0) w =
      (some (), { w with console := w.console ++ menuScreen registry 0 }) :=
    drawMenu_apply (by omega) w
  have hmenu : pageMenu (some registry) w =
      Prog.loop pure (pageMenuServe registry) w.keys.length 0
        { w with console := w.console ++ menuScreen registry 0 } := by
    rw [pageMenu, if_neg hcount, show (0 : NxUintn) = BitVec.ofNat 64 0 from rfl,
      Prog.bind_of_some hdraw, Prog.bind_of_some (Prog.get_apply _)]
  unfold Prog.done
  rw [hmenu]
  exact menuLoop_onePage hone w.keys { w with console := w.console ++ menuScreen registry 0 } rfl

end

/-! ## The session -/

/-- The state of the tool. -/
def toolOf (w : AppWorld) : Tool := ⟨w.machine.inits, w.machine.memory, w.machine.keys⟩

/-- The application is on its menu, with fuel for the keys. -/
structure OnMenu (fw : AppFirmware) (fuel : ℕ) (w : AppWorld) : Prop where
  before : BeforeOpening fw.toFirmware w.machine.inits w.machine
  fuel : w.machine.keys.length < fuel

/-- The application after its menu. -/
def afterMenu (fw : AppFirmware) (fuel : ℕ) (w : AppWorld) (keys : List EfiInputKey) : AppWorld :=
  { w with
    machine :=
      { w.machine with
        console := w.machine.console ++ menuScreen (mPages fw fuel) 0
        keys := keys } }

section
variable {fw : AppFirmware} {fuel : ℕ} {w w' : AppWorld}

theorem OnMenu.after (h : OnMenu fw fuel w) {keys : List EfiInputKey}
    (hkeys : keys.length ≤ w.machine.keys.length) : OnMenu fw fuel (afterMenu fw fuel w keys) :=
  ⟨⟨rfl, h.before.map, h.before.size⟩, Nat.lt_of_le_of_lt hkeys h.fuel⟩

/-- PageMem, opened by the application. -/
theorem pageMemLayered_done (fw : AppFirmware) (fuel : ℕ) (w : AppWorld) :
    Prog.done (pageMemLayered fw fuel) w =
      (Prog.done (pageMemControllerRun (uefiAdapters fw.toFirmware) (fw.stack w.machine.inits) fuel)
        w.machine).map fun p => ((), { w with machine := p.2 }) := by
  have hpage := pageMemLayered_apply fw fuel w
  unfold Prog.done
  rw [hpage]
  rcases pageMemControllerRun (uefiAdapters fw.toFirmware) (fw.stack w.machine.inits) fuel
    w.machine with ⟨_ | status, v⟩
  · rfl
  · rfl

/-- It is the tool's page. -/
theorem OnMenu.page (h : OnMenu fw fuel w) (hpos : Positional fw.strHexToUint64)
    (hempty : fw.strHexToUint64 [] = 0)
    (hal : ∀ n, Opens fw.toFirmware n → MapAligned (mapAt fw.toFirmware n)) :
    (Prog.done (pageMemLayered fw fuel) w).map (fun p => toolOf p.2) =
      Tool.openPage (openingAt fw.toFirmware) (toolOf w) := by
  rw [pageMemLayered_done, Option.map_map]
  exact opening_is_page hpos hempty h.before (hal _) (fw.stack w.machine.inits) h.fuel

/-- The machine when it has returned. -/
theorem OnMenu.returned (h : OnMenu fw fuel w) (hpos : Positional fw.strHexToUint64)
    (hempty : fw.strHexToUint64 [] = 0)
    (hal : ∀ n, Opens fw.toFirmware n → MapAligned (mapAt fw.toFirmware n))
    (hpage : Prog.done (pageMemLayered fw fuel) w = some ((), w')) : OnMenu fw fuel w' := by
  have htool := h.page hpos hempty hal
  rw [hpage, Option.map_some] at htool
  rw [pageMemLayered_done, Option.map_eq_some_iff] at hpage
  obtain ⟨⟨status, v⟩, hrun, heq⟩ := hpage
  cases heq
  have hbefore := h.before.run (Prog.done_eq_some.1 hrun)
  refine ⟨hbefore.inits.symm ▸ hbefore, ?_⟩
  exact Nat.lt_of_le_of_lt (Tool.openPage_length htool.symm) h.fuel

theorem onMachine_done {α : Type} (m : Prog UefiWorld α) (w : AppWorld) :
    Prog.done (onMachine m) w =
      (Prog.done m w.machine).map fun p => (p.1, { w with machine := p.2 }) := by
  unfold Prog.done onMachine
  rcases m w.machine with ⟨_ | a, v⟩
  · rfl
  · rfl

/-- The entry point of the first page is that of PageMem. -/
theorem entryPoint_zero (fw : AppFirmware) (fuel : ℕ) :
    callEntryPoint ((getPageRegistry fw fuel).bind (entryPointAt 0)) = pageMemLayered fw fuel := by
  have hlt : (0 : NxIntn) < (mPages fw fuel).pageCount := by
    rw [BitVec.lt_def, pageCount_toNat]
    exact Nat.one_pos
  show callEntryPoint (entryPointAt 0 (mPages fw fuel)) = _
  unfold entryPointAt
  rw [if_pos hlt]
  rfl

/-- A turn of the application: the menu, and then the page or the end. -/
theorem appRunServe_done (fw : AppFirmware) (fuel : ℕ) (w : AppWorld) :
    Prog.done (appRunServe (getPageRegistry fw fuel)) w =
      (Tool.menu w.machine.keys).bind fun r =>
        if r.1 then
          (Prog.done (pageMemLayered fw fuel) (afterMenu fw fuel w r.2)).map fun p => (.inl (), p.2)
        else some (.inr efiSuccess, afterMenu fw fuel w r.2) := by
  have hmenu : Prog.done (onMachine (pageMenu (getPageRegistry fw fuel))) w =
      (Tool.menu w.machine.keys).map fun r =>
        (if r.1 then 0 else -1, afterMenu fw fuel w r.2) := by
    show Prog.done (onMachine (pageMenu (some (mPages fw fuel)))) w = _
    rw [onMachine_done, pageMenu_onePage rfl, Option.map_map]
    rfl
  unfold appRunServe
  rw [Prog.done_bind, hmenu, Option.bind_map]
  congr 1
  funext r
  obtain ⟨opens, keys⟩ := r
  cases opens with
  | false => rfl
  | true =>
    show Prog.done (callEntryPoint ((getPageRegistry fw fuel).bind (entryPointAt 0)) >>= _)
      (afterMenu fw fuel w keys) = _
    rw [entryPoint_zero, Prog.done_bind]
    cases Prog.done (pageMemLayered fw fuel) (afterMenu fw fuel w keys) with
    | none => rfl
    | some p => rfl

/-- **A turn of the application** is a step of the tool. -/
theorem application_refines (hpos : Positional fw.strHexToUint64)
    (hempty : fw.strHexToUint64 [] = 0)
    (hal : ∀ n, Opens fw.toFirmware n → MapAligned (mapAt fw.toFirmware n)) :
    Refine.Refines pure (fun _ : Unit => appRunServe (getPageRegistry fw fuel))
      (fun _ w => OnMenu fw fuel w) (fun _ w => toolOf w)
      (Tool.step (openingAt fw.toFirmware)) := by
  refine ⟨fun s w h => ⟨s, w, rfl, h, rfl⟩, fun _ w _ w' h hserve => ?_, fun _ w h hstop => ?_⟩
  · have hdone := Prog.done_eq_some.2 hserve
    rw [appRunServe_done, Option.bind_eq_some_iff] at hdone
    obtain ⟨⟨opens, keys⟩, hmenu, hdone⟩ := hdone
    cases opens with
    | false => cases hdone
    | true =>
      obtain ⟨⟨_, v⟩, hpage, heq⟩ := Option.map_eq_some_iff.1 hdone
      cases heq
      have hafter := h.after (Tool.menu_length hmenu).le
      refine ⟨hafter.returned hpos hempty hal hpage, ?_⟩
      have hstep := hafter.page hpos hempty hal
      rw [hpage] at hstep
      rw [Tool.step_of_open hmenu]
      exact hstep.symm
  · rcases hmenu : Tool.menu w.machine.keys with _ | ⟨_ | _, keys⟩
    · exact Tool.step_of_none hmenu
    · exact Tool.step_of_leave hmenu
    · rw [Tool.step_of_open hmenu]
      have hstep := (h.after (Tool.menu_length hmenu).le).page hpos hempty hal
      refine hstep.symm.trans ?_
      rw [Option.map_eq_none_iff]
      by_contra hsome
      obtain ⟨⟨_, v⟩, hpage⟩ := Option.ne_none_iff_exists'.1 hsome
      refine hstop () v (Prog.done_eq_some.1 ?_)
      rw [appRunServe_done, hmenu, Option.bind_some, if_pos rfl, hpage]
      rfl

/-- It returns where the tool is left. -/
theorem application_quits (fw : AppFirmware) (fuel : ℕ) :
    Refine.Quits (fun _ : Unit => appRunServe (getPageRegistry fw fuel))
      (fun _ w => OnMenu fw fuel w) (fun _ w => toolOf w) Tool.left (fun _ w => toolOf w) := by
  refine ⟨fun _ w status w' _ hserve => ?_, fun _ w t _ hleft => ?_⟩
  · have hdone := Prog.done_eq_some.2 hserve
    rw [appRunServe_done, Option.bind_eq_some_iff] at hdone
    obtain ⟨⟨opens, keys⟩, hmenu, hdone⟩ := hdone
    cases opens with
    | false =>
      cases hdone
      exact Tool.left_of_leave hmenu
    | true =>
      obtain ⟨_, -, heq⟩ := Option.map_eq_some_iff.1 hdone
      cases heq
  · rcases hmenu : Tool.menu w.machine.keys with _ | ⟨_ | _, keys⟩
    · rw [Tool.left_of_none hmenu] at hleft
      cases hleft
    · rw [Tool.left_of_leave hmenu] at hleft
      cases hleft
      refine ⟨efiSuccess, afterMenu fw fuel w keys, Prog.done_eq_some.1 ?_, rfl⟩
      rw [appRunServe_done, hmenu]
      rfl
    · rw [Tool.left_of_open hmenu] at hleft
      cases hleft

/-- **The application is the tool.**  From boot, if the descriptors of the maps it
    gets start at a page boundary, the application returns exactly if the tool is
    left, and then with the openings, the physical memory and the keys the tool
    leaves behind. -/
theorem application_is_tool (fw : AppFirmware) (hcon : fw.conOut = true)
    (hpos : Positional fw.strHexToUint64) (hempty : fw.strHexToUint64 [] = 0)
    (hal : ∀ n, Opens fw.toFirmware n → MapAligned (mapAt fw.toFirmware n)) (fuel : ℕ)
    (memory : PhysMem) (keys : List EfiInputKey) (cursor : List Bool)
    (hfuel : keys.length < fuel) :
    (Prog.done (uefiNexusMain fw (getPageRegistry fw fuel) fuel) ⟨.boot memory keys, cursor⟩).map
        (fun p => (p.1, toolOf p.2)) =
      (ending (Tool.step (openingAt fw.toFirmware)) Tool.left ⟨0, memory, keys⟩).map
        fun t => (efiSuccess, t) := by
  have hmenu : OnMenu fw fuel (opened ⟨.boot memory keys, cursor⟩) :=
    ⟨⟨rfl, .refl _, rfl⟩, hfuel⟩
  have hfits : ∀ k t, Refine.run (Tool.step (openingAt fw.toFirmware)) k ⟨0, memory, keys⟩ =
      some t → k < fuel := by
    intro k t hk
    have hle := Refine.run_measure (μ := fun t : Tool => t.keys.length)
      (fun _ _ => Tool.step_length) k _ t hk
    exact Nat.lt_of_le_of_lt ((Nat.le_add_left k _).trans hle) hfuel
  have hrun : (Prog.done (appRun (getPageRegistry fw fuel) fuel)
      (opened ⟨.boot memory keys, cursor⟩)).map (fun p => toolOf p.2) =
        ending (Tool.step (openingAt fw.toFirmware)) Tool.left ⟨0, memory, keys⟩ :=
    (application_refines hpos hempty hal).ending (s := ()) (application_quits fw fuel)
      (Tool.left_final _) hmenu hfits
  rw [← hrun, uefiNexusMain, Prog.done_bind, Prog.done_eq_some.2 (appInit_apply hcon _),
    Option.bind_some]
  show (Prog.done (appRun (getPageRegistry fw fuel) fuel >>= _) (opened _)).map _ = _
  rw [Prog.done_bind]
  rcases happ : Prog.done (appRun (getPageRegistry fw fuel) fuel)
    (opened ⟨.boot memory keys, cursor⟩) with _ | ⟨status, v⟩
  · rfl
  · obtain ⟨rfl, -⟩ := appRun_session fuel _ v status
      (Prog.done_eq_some.1 happ)
    rw [Option.bind_some, Prog.done_bind, Prog.done_eq_some.2 (appDeinit_apply hcon _ v)]
    rfl

end

/-! ## Documented maps -/

/-- An opening gets the firmware's map of that opening. -/
theorem Opens.descriptors {fw : AppFirmware} (maps : DocumentedMaps fw) {n : ℕ}
    (h : Opens fw.toFirmware n) :
    (libAt fw.toFirmware (n + 1)).descriptors = (maps.calls n).filling.descriptors := by
  obtain ⟨hok, -⟩ := h
  exact (initMemoryMap_caches (maps.calls n) fw.bootServices _ hok).descriptors
    (maps.calls n).stride

/-- The one map of `openApp` starts at a page boundary. -/
theorem openApp_aligned (n : ℕ) (h : Opens openApp.toFirmware n) :
    MapAligned (mapAt openApp.toFirmware n) := by
  have hfilling : onePageCall.filling.descriptors = [⟨7, 0x1000, 1, 0⟩] := by decide
  have hdescs := h.descriptors openMaps
  rw [show (openMaps.calls n).filling = onePageCall.filling from rfl, hfilling] at hdescs
  unfold mapAt
  rw [hdescs]
  intro ds hds desc hdesc
  cases hds
  rw [List.mem_singleton.1 hdesc]
  exact ⟨1, rfl⟩

theorem application_is_tool_edit :
    (Prog.done (uefiNexusMain openApp (getPageRegistry openApp 7) 7)
        ⟨.boot (fun _ => 0) (editKeysOfSession ++ [escKey, escKey]), []⟩).map
        (fun p => (p.1, toolOf p.2)) =
      (ending (Tool.step (openingAt openApp.toFirmware)) Tool.left
        ⟨0, fun _ => 0, editKeysOfSession ++ [escKey, escKey]⟩).map fun t => (efiSuccess, t) :=
  application_is_tool openApp rfl codecFirmware_positional rfl openApp_aligned 7 (fun _ => 0)
    (editKeysOfSession ++ [escKey, escKey]) [] (by decide)

end UefiNexus
