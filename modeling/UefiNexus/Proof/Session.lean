/-
  What a session of the application does to memory.

  * `ApplicationServes`: a closed property of the requests, of the menu and of the
    page passes to the application;
  * `SessionWrites`: memory has changed only where the firmware's map at an opening
    in between allows it.  The openings keep it, and the rest of the application
    leaves memory alone (`session_writes_allowed`).
-/
import UefiNexus.Proof.Application
import UefiNexus.Proof.Codec
import UefiNexus.Proof.Openings

namespace UefiNexus

/-! ## The programs of the application -/

/-- A property of the console and the keystrokes passes to the menu. -/
theorem pageMenu_of_closed {Φ : ∀ {α : Type}, Prog UefiWorld α → Prop} (hc : Prog.Closed Φ)
    (hhang : Φ (Prog.hang : Prog UefiWorld NxIntn)) (hconsole : ∀ op, Φ (consoleRequest op))
    (hread : Φ tuiReadKey)
    (hkeys : ∀ f : ℕ → Prog UefiWorld NxIntn, (∀ n, Φ (f n)) → Φ fun w => f w.keys.length w)
    {W : Type} (registry : Option (PageRegistry W)) : Φ (pageMenu registry) := by
  have hdraw : ∀ (r : PageRegistry W) sel, Φ (drawMenu r sel) := by
    intro r sel
    exact hc.seq (hconsole _) fun _ => hc.seq (hconsole _) fun _ =>
      hc.seq (hc.each fun _ _ => hconsole _) fun _ => hconsole _
  have hserve : ∀ (r : PageRegistry W) sel, Φ (pageMenuServe r sel) := by
    intro r sel
    refine hc.seq hread fun key => ?_
    split_ifs
    · exact hc.seq (hdraw _ _) fun _ => hc.ret _
    · exact hc.seq (hdraw _ _) fun _ => hc.ret _
    · exact hc.ret _
    · exact hc.ret _
    · exact hc.ret _
    · exact hc.ret _
  rcases registry with _ | registry
  · exact hc.ret _
  · rw [pageMenu]
    split_ifs
    · exact hc.ret _
    · refine hc.seq (hdraw _ _) fun _ => ?_
      exact hkeys (fun n => Prog.loop pure (pageMenuServe registry) n 0) fun n =>
        Prog.loop_closed hc hhang (fun _ => hc.ret _) (hserve registry) n _

/-- The parts of the application have the property `Φ`. -/
structure ApplicationServes (fw : AppFirmware) (fuel : ℕ)
    (Φ : ∀ {α : Type}, Prog AppWorld α → Prop) : Prop where
  closed : Prog.Closed Φ
  hang : ∀ {α : Type}, Φ (Prog.hang : Prog AppWorld α)
  request : ∀ op, Φ (onMachine (consoleRequest op))
  menu : ∀ registry : Option (PageRegistry AppWorld), Φ (onMachine (pageMenu registry))
  cursor : ∀ visible, Φ (tuiEnableCursor visible)
  page : Φ (pageMemLayered fw fuel)
  /-- Programs may depend on the mode of the console. -/
  getMode : ∀ {α : Type} (f : Bool → BitVec 32 → Prog AppWorld α),
    (∀ visible attr, Φ (f visible attr)) →
      Φ (Prog.get >>= fun w => f (modeCursorVisible fw w) (modeAttribute fw w))

namespace ApplicationServes

variable {fw : AppFirmware} {fuel : ℕ} {Φ : ∀ {α : Type}, Prog AppWorld α → Prop}

theorem entryPoint (h : ApplicationServes fw fuel Φ) (i : NxIntn) :
    Φ (callEntryPoint ((getPageRegistry fw fuel).bind (entryPointAt i))) := by
  rw [getPageRegistry, Option.bind_some, entryPointAt]
  split_ifs
  · rcases hpage : (mPages fw fuel).pages[i.toNat]? with _ | page
    · exact h.closed.ret _
    · obtain rfl := List.mem_singleton.1 (List.mem_of_getElem? hpage)
      exact h.page
  · exact h.closed.ret _

theorem appRun (h : ApplicationServes fw fuel Φ) (n : ℕ) :
    Φ (appRun (getPageRegistry fw fuel) n) := by
  refine Prog.loop_closed h.closed h.hang (fun _ => h.closed.ret _) (fun _ => ?_) n ()
  refine h.closed.seq (h.menu _) fun sel => ?_
  split_ifs
  · exact h.closed.ret _
  · exact h.closed.seq (h.entryPoint sel) fun _ => h.closed.ret _

/-- **The application** has the property, with the pages it comes with. -/
theorem uefiNexusMain (h : ApplicationServes fw fuel Φ) (n : ℕ) :
    Φ (uefiNexusMain fw (getPageRegistry fw fuel) n) := by
  have hinit : Φ (appInit fw) := by
    rw [appInit]
    split_ifs
    · exact h.getMode (fun visible attr => do
        onMachine tuiClearScreen
        tuiEnableCursor false
        return (efiSuccess, some (AppContext.mk visible attr))) fun _ _ =>
          h.closed.seq (h.request _) fun _ => h.closed.seq (h.cursor _) fun _ => h.closed.ret _
    · exact h.closed.ret _
  have hdeinit : ∀ app, Φ (appDeinit fw app) := by
    intro app
    rw [appDeinit]
    split_ifs
    · exact h.closed.seq (h.cursor _) fun _ => h.closed.seq (h.request _) fun _ => h.request _
    · exact h.closed.ret _
  refine h.closed.seq hinit fun r => ?_
  rcases r with ⟨status, _ | app⟩
  · exact h.closed.ret _
  · exact h.closed.seq (h.appRun n) fun _ => h.closed.seq (hdeinit app) fun _ => h.closed.ret _

end ApplicationServes

/-- PageMem, opened by the application, on the machine. -/
theorem pageMemLayered_apply (fw : AppFirmware) (fuel : ℕ) (w : AppWorld) :
    pageMemLayered fw fuel w =
      ((pageMemControllerRun (uefiAdapters fw.toFirmware) (fw.stack w.machine.inits) fuel
          w.machine).1.map fun _ => (),
        { w with machine := (pageMemControllerRun (uefiAdapters fw.toFirmware)
          (fw.stack w.machine.inits) fuel w.machine).2 }) := by
  rw [pageMemLayered, Prog.bind_of_some (Prog.get_apply w)]
  rcases hrun : pageMemControllerRun (uefiAdapters fw.toFirmware) (fw.stack w.machine.inits) fuel
    w.machine with ⟨_ | status, v⟩
  · have hpage : onMachine (pageMemControllerRun (uefiAdapters fw.toFirmware)
        (fw.stack w.machine.inits) fuel) w = (none, { w with machine := v }) := by
      rw [onMachine, hrun]
    rw [Prog.bind_of_none hpage]
    rfl
  · have hpage : onMachine (pageMemControllerRun (uefiAdapters fw.toFirmware)
        (fw.stack w.machine.inits) fuel) w = (some status, { w with machine := v }) :=
      onMachine_eq_some.2 ⟨hrun, rfl⟩
    rw [Prog.bind_of_some hpage]
    rfl

/-! ## What a session writes -/

/-- The firmware around a session: its maps at every opening, which `GetMemoryMap`
    answers as documented. -/
structure DocumentedMaps (fw : AppFirmware) where
  calls : ∀ n, MapsDuring (fw.mapServices n)

/-- Memory has changed only where the map of an opening in between allows it. -/
structure SessionWrites (fw : AppFirmware) (maps : DocumentedMaps fw) (w w' : AppWorld) : Prop where
  protocol : w'.machine.memLib.protocol fw.bootServices =
    w.machine.memLib.protocol fw.bootServices
  inits : w.machine.inits ≤ w'.machine.inits
  writes : ∀ x, w'.machine.memory x ≠ w.machine.memory x →
    ∃ n, w.machine.inits ≤ n ∧ n < w'.machine.inits ∧
      MapAllowsWrite (w.machine.memLib.protocol fw.bootServices) (maps.calls n).filling x

instance isPreorder_sessionWrites (fw : AppFirmware) (maps : DocumentedMaps fw) :
    IsPreorder AppWorld (SessionWrites fw maps) where
  refl w := ⟨rfl, Nat.le_refl _, fun _ hx => absurd rfl hx⟩
  trans w₁ w₂ w₃ h h' := by
    refine ⟨h'.protocol.trans h.protocol, h.inits.trans h'.inits, fun x hx => ?_⟩
    by_cases hchanged : w₂.machine.memory x = w₁.machine.memory x
    · obtain ⟨n, hlow, hhigh, hallow⟩ := h'.writes x fun heq => hx (heq.trans hchanged)
      rw [h.protocol] at hallow
      exact ⟨n, h.inits.trans hlow, hhigh, hallow⟩
    · obtain ⟨n, hlow, hhigh, hallow⟩ := h.writes x hchanged
      exact ⟨n, hlow, Nat.lt_of_lt_of_le hhigh h'.inits, hallow⟩

/-- The parts of the machine that the menu leaves alone. -/
def OnlyConsole (w w' : UefiWorld) : Prop :=
  w'.memLib = w.memLib ∧ w'.inits = w.inits ∧ w'.memory = w.memory

instance isPreorder_onlyConsole : IsPreorder UefiWorld OnlyConsole where
  refl _ := ⟨rfl, rfl, rfl⟩
  trans _ _ _ h h' := ⟨h'.1.trans h.1, h'.2.1.trans h.2.1, h'.2.2.trans h.2.2⟩

theorem consoleRequest_onlyConsole (op : ConsoleOp) :
    Prog.Sat OnlyConsole (consoleRequest op) := fun _ => ⟨rfl, rfl, rfl⟩

theorem pageMenu_onlyConsole {W : Type} (registry : Option (PageRegistry W)) :
    Prog.Sat OnlyConsole (pageMenu registry) := by
  refine pageMenu_of_closed Prog.Sat.closed Prog.Sat.hang consoleRequest_onlyConsole ?_ ?_ registry
  · intro w
    unfold tuiReadKey
    rcases w.keys with _ | ⟨key, keys⟩
    · exact refl_of OnlyConsole w
    · exact ⟨rfl, rfl, rfl⟩
  · intro f hf w
    exact hf w.keys.length w

section
variable {fw : AppFirmware} {maps : DocumentedMaps fw}

/-- A program that leaves the memory library and memory alone. -/
theorem onMachine_writes {α : Type} {m : Prog UefiWorld α} (hm : Prog.Sat OnlyConsole m) :
    Prog.Sat (SessionWrites fw maps) (onMachine m) := by
  intro w
  obtain ⟨hlib, hinits, hmemory⟩ := hm w.machine
  exact ⟨congrArg _ hlib, hinits.ge, fun x hx => absurd (congrFun hmemory x) hx⟩

/-- PageMem, opened by the application. -/
theorem pageMemLayered_writes (maps : DocumentedMaps fw) (fuel : ℕ) :
    Prog.Sat (SessionWrites fw maps) (pageMemLayered fw fuel) := by
  intro w
  obtain ⟨hprotocol, hinits, hwrites⟩ := opening_writes fw.toFirmware
    (fw.stack w.machine.inits) fuel w.machine (maps.calls w.machine.inits)
  rw [pageMemLayered_apply]
  exact ⟨hprotocol, hinits.le, fun x hx =>
    ⟨w.machine.inits, Nat.le_refl _, hinits, hwrites x hx⟩⟩

/-- The application and its page. -/
theorem uefiNexusMain_writes (maps : DocumentedMaps fw) (fuel : ℕ) :
    Prog.Sat (SessionWrites fw maps) (uefiNexusMain fw (getPageRegistry fw fuel) fuel) := by
  have hserves : ApplicationServes fw fuel (Prog.Sat (SessionWrites fw maps)) :=
    { closed := Prog.Sat.closed
      hang := Prog.Sat.hang
      request := fun op => onMachine_writes (consoleRequest_onlyConsole op)
      menu := fun registry => onMachine_writes (pageMenu_onlyConsole registry)
      cursor := fun _ _ => ⟨rfl, Nat.le_refl _, fun _ hx => absurd rfl hx⟩
      page := pageMemLayered_writes maps fuel
      getMode := fun f hf w => hf (modeCursorVisible fw w) (modeAttribute fw w) w }
  exact hserves.uefiNexusMain fuel

end

/-- The protocol of a firmware, as NexusMemLib locates it at the first query. -/
def BootServices.protocol (bs : BootServices) : Option MemoryAttributeProtocol :=
  if efiError bs.locateStatus then none else bs.locateInterface

/-- **A session writes only what the firmware allows.**  In any session from boot,
    with any keystrokes and any number of openings, whether it ends or not, whether
    the initializations succeed or not (the pool may fail), and whatever the
    firmware's maps are at the openings: every byte of physical memory
    that has changed lies in an aligned range of a cell's width that, by the
    firmware's map at one of the openings, belongs to a descriptor of a writable type,
    and for which the protocol answers attributes without `EFI_MEMORY_RO`. -/
theorem session_writes_allowed (fw : AppFirmware) (maps : DocumentedMaps fw) (fuel : ℕ)
    (memory : PhysMem) (keys : List EfiInputKey) (cursor : List Bool) (x : NxU64) :
    (uefiNexusMain fw (getPageRegistry fw fuel) fuel ⟨.boot memory keys, cursor⟩).2.machine.memory x ≠
        memory x →
      ∃ n < (uefiNexusMain fw (getPageRegistry fw fuel) fuel
          ⟨.boot memory keys, cursor⟩).2.machine.inits,
        MapAllowsWrite fw.bootServices.protocol (maps.calls n).filling x := by
  intro hx
  obtain ⟨n, -, hn, hallow⟩ := (uefiNexusMain_writes maps fuel ⟨.boot memory keys, cursor⟩).writes x hx
  exact ⟨n, hn, hallow⟩

/-- The machine of `plainApp`, with a protocol that restricts nothing. -/
def openApp : AppFirmware := { plainApp with toFirmware := codecFirmware }

/-- Its maps. -/
def openMaps : DocumentedMaps openApp where
  calls _ :=
    { sizing := onePageCall.sizing
      filling := onePageCall.filling
      documents_sizing := onePageCall.documents_sizing
      documents_filling := onePageCall.documents_filling
      stride := (by decide : 40 ≤ (48 : NxUintn).toNat) }

/-- Enter opens PageMem; `e`, `5` and Enter write the byte at the cursor. -/
def editKeysOfSession : List EfiInputKey :=
  [⟨0, charCarriageReturn⟩, ⟨0, L 'e'⟩, ⟨0, L '5'⟩, ⟨0, charCarriageReturn⟩]

/-- The byte the session has written is allowed by the one map of that firmware. -/
theorem session_writes_allowed_edit :
    MapAllowsWrite openApp.bootServices.protocol onePageCall.filling 0x1000 := by
  have hchanged : (uefiNexusMain openApp (getPageRegistry openApp 1) 1
      ⟨.boot (fun _ => 0) editKeysOfSession, []⟩).2.machine.memory 0x1000 ≠ 0 := by
    decide +kernel
  obtain ⟨_, -, hallow⟩ := session_writes_allowed openApp openMaps 1 (fun _ => 0)
    editKeysOfSession [] 0x1000 hchanged
  exact hallow

end UefiNexus
