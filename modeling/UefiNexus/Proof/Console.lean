/-
  The UEFI adapters drive a terminal.

  A `Console` interprets the requests of the machine on a screen.  What `Print`
  does with arguments and with control characters is left to it; a text without
  them is put at the position (`put_printable`).  With it, the machine has a
  terminal: its screen is the requests so far, interpreted in order, and what it
  reads as is the outcome of every read (`readOutcome`), which only a write, the
  initialization and the list of ranges may change.
-/
import UefiNexus.Proof.Machine
import UefiNexus.Proof.Redraw

namespace UefiNexus

/-! ## The outcome of a read -/

theorem SameMap.isRangeValid {bs : BootServices} {lib lib' : MemLib} (h : SameMap bs lib lib')
    (a : NxU64) (n : NxUintn) : (isRangeValid bs lib' a n).1 = (isRangeValid bs lib a n).1 := by
  rw [Bool.eq_iff_iff, isRangeValid_iff, isRangeValid_iff]
  simp only [h.granted]

/-- The status and the value of a read depend on the map alone. -/
theorem SameMap.memRead {bs : BootServices} {lib lib' : MemLib} (h : SameMap bs lib lib')
    (memory : PhysMem) (a : NxU64) (n : NxUintn) (value : Option NxU64) :
    (memRead bs lib' memory a n value).1 = (memRead bs lib memory a n value).1 ∧
      (memRead bs lib' memory a n value).2.1 = (memRead bs lib memory a n value).2.1 := by
  cases value with
  | none => exact ⟨rfl, rfl⟩
  | some old =>
    simp only [UefiNexus.memRead, h.isRangeValid a n]
    split_ifs <;> exact ⟨rfl, rfl⟩

/-- What `UefiBridgeMemRead` returns and stores. -/
def readOutcome (fw : Firmware) (w : UefiWorld) (address : NxU64) (width : NxUintn) :
    NxStatus × NxU64 :=
  let (status, value, _) := memRead fw.bootServices w.memLib w.memory address width (some 0)
  if efiError status then (efiStatusToUiStatus status, 0) else (.success, value.getD 0)

theorem uefiBridgeMemRead_apply (fw : Firmware) (address : NxU64) (width : NxUintn)
    (w : UefiWorld) :
    ∃ w', uefiBridgeMemRead fw address width w = (some (readOutcome fw w address width), w') ∧
      w'.console = w.console ∧ Untouched fw.bootServices w w' := by
  have huntouched : Untouched fw.bootServices w (uefiBridgeMemRead fw address width w).2 :=
    uefiBridgeMemRead_untouched address width w
  rw [uefiBridgeMemRead, readOutcome] at *
  dsimp only at huntouched ⊢
  split_ifs at huntouched ⊢
  · exact ⟨_, rfl, rfl, huntouched⟩
  · exact ⟨_, rfl, rfl, huntouched⟩

theorem Untouched.readOutcome {fw : Firmware} {w w' : UefiWorld} (h : Untouched fw.bootServices w w') :
    readOutcome fw w' = readOutcome fw w := by
  funext address width
  obtain ⟨hstatus, hvalue⟩ := h.lib.memRead w.memory address width (some 0)
  simp only [UefiNexus.readOutcome, h.memory, hstatus, hvalue]

/-! ## The screen -/

/-- An interpretation of the requests to the console. -/
structure Console where
  initial : Screen
  /-- What a format without arguments appears as. -/
  render : List NxUiChar → List NxUiChar
  render_plain : ∀ string, (∀ c ∈ string, Plain c) → render string = string
  print : List NxUiChar → List PrintArg → Screen → Screen
  put_printable : ∀ string, (∀ c ∈ string, Printable c) → print string [] = Grid.put (render string)

theorem put_id : ∀ string : List NxUiChar, (∀ c ∈ string, Printable c) →
    (Grid.put string : Screen → Screen) = Grid.put (id string) :=
  fun _ _ => rfl

/-- The console that puts every format as it is. -/
instance : Inhabited Console where
  default :=
    { initial := ⟨Grid.blank, 0, 0, 0⟩
      render := id
      render_plain := id_plain
      print := fun format _ => Grid.put format
      put_printable := put_id }

namespace Console

variable (c : Console) (fw : Firmware)

/-- A request. -/
def step (g : Screen) : ConsoleOp → Screen
  | .clearScreen => g.clear
  | .setAttribute attr => g.setAttr attr
  | .setCursorPosition column row => g.moveTo column.toNat row.toNat
  | .print format args => c.print format args g

/-- The screen after the requests. -/
def screen (ops : List ConsoleOp) : Screen := ops.foldl c.step c.initial

/-- The terminal of the machine. -/
def terminal : Terminal UefiWorld (NxU64 → NxUintn → NxStatus × NxU64) where
  screen w := c.screen w.console
  env := readOutcome fw
  render := c.render
  render_plain := c.render_plain
  read outcome := outcome
  dimensions _ := (if efiError fw.queryMode.1 then .deviceError else .success, fw.queryMode.2)

/-- A request changes the screen and nothing else. -/
theorem request_effect (op : ConsoleOp) (w : UefiWorld) :
    (c.terminal fw).Effect w (consoleRequest op) () fun g => c.step g op := by
  refine ⟨_, rfl, ?_, rfl⟩
  show c.screen (w.console ++ [op]) = c.step (c.screen w.console) op
  rw [screen, screen, List.foldl_append]
  rfl

theorem print_effect {string : List NxUiChar} (h : ∀ c ∈ string, Printable c) (w : UefiWorld) :
    (c.terminal fw).Effect w (UefiNexus.print string []) () (Grid.put (c.render string)) := by
  rw [← c.put_printable string h]
  exact c.request_effect fw (.print string []) w

/-- **The UEFI adapters drive the terminal of the machine.** -/
theorem uefi_drives : (c.terminal fw).Drives (uefiAdapters fw) where
  clearScreen := c.request_effect fw .clearScreen
  setAttribute attr := c.request_effect fw (.setAttribute attr)
  setCursorPosition column row := c.request_effect fw (.setCursorPosition column row)
  outputString string h := c.print_effect fw h
  outputStringAt column row string h w := by
    obtain ⟨w₁, h₁, hscreen₁, henv₁⟩ := c.request_effect fw (.setCursorPosition column row) w
    obtain ⟨w₂, h₂, hscreen₂, henv₂⟩ := c.print_effect fw h w₁
    refine ⟨w₂, ?_, ?_, henv₂.trans henv₁⟩
    · show (tuiSetCursorPosition column row >>= fun _ => UefiNexus.print string []) w = _
      rw [tuiSetCursorPosition, Prog.bind_of_some h₁]
      exact h₂
    · rw [hscreen₂, hscreen₁]
      rfl
  getScreenDimensions w := ⟨w, rfl, rfl, rfl⟩
  memRead address width w := by
    obtain ⟨w', hread, hconsole, huntouched⟩ := uefiBridgeMemRead_apply fw address width w
    refine ⟨w', hread, ?_, huntouched.readOutcome⟩
    show c.screen w'.console = c.screen w.console
    rw [hconsole]
  readKey w key w' h := by
    obtain ⟨efiKey, w₁, hread, hkey⟩ := Prog.bind_eq_some.1 h
    obtain ⟨-, rfl⟩ := Prog.pure_eq_some.1 hkey
    rw [tuiReadKey] at hread
    rcases hkeys : w.keys with _ | ⟨k, keys⟩
    · rw [hkeys] at hread
      cases hread
    · rw [hkeys] at hread
      cases hread
      exact ⟨rfl, rfl⟩

/-- A redraw on the machine shows the page. -/
theorem uefi_drawPage_shown {pageState : PageMemPageState}
    (hw : WidthOk pageState.cursorState.width) (w : UefiWorld) :
    ∃ w', pageMemViewDrawPage (uefiAdapters fw).tui (uefiAdapters fw).memory pageState w =
        (some (), w') ∧
      readOutcome fw w' = readOutcome fw w ∧ Shown (c.terminal fw) pageState w' :=
  drawPage_shown (c.uefi_drives fw) hw w

end Console
end UefiNexus
