/-
  The line editor of the hexadecimal prompts (`TuiReadHex`).

  Every key keeps three things in step: the digits in `Buffer`, the line that the
  keys type (`typeKey`), and the text on the screen.  `HoldsLine` relates the
  buffer to the line, and `Grid.Edited` the screen.

  `Print` and the console are not modelled: `Echoes` says what is assumed of them.
-/
import UefiNexus.Proof.Codec

namespace UefiNexus

open Grid (Edited)

/-! ## The echo -/

/-- What the echo relies on, on rows of `columns` columns: `Print` outputs its
    argument for `%c`, and the characters of a text in order; a printable
    character takes the cell at the position and moves it to the right; a backspace
    moves it to the left. -/
structure Echoes (columns : ℕ) (step : Screen → ConsoleOp → Screen)
    (outputChar : Screen → NxUiChar → Screen) : Prop where
  print_char : ∀ g c, step g (.print (wide "%c") [.char c]) = outputChar g c
  print_text : ∀ g text, (∀ c ∈ text, Plain c ∨ c = charBackspace) →
    step g (.print text []) = text.foldl outputChar g
  printable : ∀ g c, Printable c → g.column + 1 < columns → outputChar g c = g.put [c]
  backspace : ∀ g, 0 < g.column → g.column < columns → outputChar g charBackspace = g.left

theorem isHexDigit_printable {c : NxUiChar} (h : isHexDigit c = true) : Printable c := by
  have hrange := isHexDigit_iff.1 h
  exact ⟨by omega, by omega⟩

theorem length_typeKey_le {maxDigits : ℕ} {line : List NxUiChar} (h : line.length ≤ maxDigits)
    (key : EfiInputKey) : (typeKey maxDigits line key).length ≤ maxDigits := by
  rw [typeKey]
  split_ifs with hdigit hback
  · rw [List.length_append]
    exact hdigit.2
  · rw [List.length_dropLast]
    exact (Nat.sub_le _ _).trans h
  · exact h

section
variable {columns maxDigits : ℕ} {step : Screen → ConsoleOp → Screen}
  {outputChar : Screen → NxUiChar → Screen} {g₀ g : Screen} {line : List NxUiChar}

/-- The echo of a digit. -/
theorem Echoes.digit (h : Echoes columns step outputChar) {c : NxUiChar}
    (hc : isHexDigit c = true) (hroom : g.column + 1 < columns) :
    step g (.print (wide "%c") [.char c]) = g.put [c] := by
  rw [h.print_char]
  exact h.printable g c (isHexDigit_printable hc) hroom

/-- The echo of a backspace: left, a blank, left again. -/
theorem Echoes.erase (h : Echoes columns step outputChar) (hpos : 0 < g.column)
    (hroom : g.column < columns) :
    step g (.print [charBackspace, L ' ', charBackspace] []) = g.erase (L ' ') := by
  have hblank : Plain (L ' ') := by decide
  have htext : ∀ c ∈ [charBackspace, L ' ', charBackspace], Plain c ∨ c = charBackspace := by
    simp only [List.mem_cons, List.not_mem_nil, or_false]
    rintro c (rfl | rfl | rfl)
    exacts [Or.inr rfl, Or.inl hblank, Or.inr rfl]
  have hleft : g.left.column + 1 = g.column := Nat.sub_add_cancel hpos
  have hput : (g.left.put [L ' ']).column = g.column := hleft
  rw [h.print_text g _ htext]
  simp only [List.foldl_cons, List.foldl_nil]
  rw [h.backspace g hpos hroom, h.printable g.left (L ' ') hblank.1 (by omega),
    h.backspace _ (by omega) (by omega)]
  rfl

/-- **A key keeps the screen in step with the line.** -/
theorem Echoes.echoKey (h : Echoes columns step outputChar)
    (hscreen : Edited (L ' ') g₀ g line) (hlimit : line.length ≤ maxDigits)
    (hroom : g₀.column + maxDigits < columns) (key : EfiInputKey) :
    Edited (L ' ') g₀ ((UefiNexus.echoKey maxDigits line key).foldl step g)
      (typeKey maxDigits line key) := by
  have hcolumn := hscreen.column
  rw [UefiNexus.echoKey, typeKey]
  by_cases hdigit : isHexDigit key.unicodeChar = true ∧ line.length < maxDigits
  · rw [if_pos hdigit, if_pos hdigit, List.foldl_cons, List.foldl_nil, h.digit hdigit.1 (by omega)]
    exact hscreen.put key.unicodeChar
  · rw [if_neg hdigit, if_neg hdigit]
    by_cases hback : key.unicodeChar = charBackspace
    · rw [if_pos hback]
      by_cases hnil : line = []
      · rw [if_neg fun hb => hb.2 hnil]
        rw [hnil] at hscreen ⊢
        exact hscreen
      · have hpos := List.length_pos_iff.2 hnil
        rw [if_pos ⟨hback, hnil⟩, List.foldl_cons, List.foldl_nil, h.erase (by omega) (by omega)]
        exact hscreen.erase hnil
    · rw [if_neg hback, if_neg fun hb => hback hb.1]
      exact hscreen

/-- **Keys do.** -/
theorem Echoes.echo (h : Echoes columns step outputChar)
    (hroom : g₀.column + maxDigits < columns) :
    ∀ (keys : List EfiInputKey) (line : List NxUiChar) (g : Screen),
      Edited (L ' ') g₀ g line → line.length ≤ maxDigits →
      Edited (L ' ') g₀ ((UefiNexus.echo maxDigits line keys).foldl step g)
        (keys.foldl (typeKey maxDigits) line)
  | [], line, g, hscreen, _ => hscreen
  | key :: keys, line, g, hscreen, hlimit => by
    rw [UefiNexus.echo, List.foldl_append, List.foldl_cons]
    exact h.echo hroom keys _ _ (h.echoKey hscreen hlimit hroom key) (length_typeKey_le hlimit key)

end

/-! ## The editor -/

/-- The line after the keys, in at most `maxDigits` digits. -/
def editedLine (maxDigits : NxUintn) (keys : List EfiInputKey) : List NxUiChar :=
  keys.foldl (typeKey maxDigits.toNat) []

/-- `TuiReadHex` after the keys `typed`, with `rest` still to come: the loop goes on
    with `buffer` and `index`, and `ops` have been printed.  Both stores of the
    loop are to `Buffer[Index]`. -/
structure Editing (fw : Firmware) (w : UefiWorld) (maxDigits : NxUintn)
    (typed rest : List EfiInputKey) (buffer : List NxUiChar) (index : ℕ) (ops : List ConsoleOp) :
    Prop where
  loop : tuiReadHex fw maxDigits w =
    tuiReadHexLoop fw.strHexToUint64 maxDigits.toNat rest.length buffer index
      { w with keys := rest, console := w.console ++ ops }
  line : buffer.take index = editedLine maxDigits typed
  index_eq : index = (editedLine maxDigits typed).length
  inside : buffer.length = hexBufferSize ∧ index < hexBufferSize
  screen : ∀ columns step outputChar, Echoes columns step outputChar →
    ∀ g₀ : Screen, g₀.column + maxDigits.toNat < columns →
      Edited (L ' ') g₀ (ops.foldl step g₀) (editedLine maxDigits typed)
  cancel : ∀ key rest', rest = key :: rest' → key.scanCode = scanEsc →
    tuiReadHex fw maxDigits w =
      (some (false, 0), { w with keys := rest', console := w.console ++ ops })
  confirm : ∀ key rest', rest = key :: rest' → Confirms key →
    ∃ value, tuiReadHex fw maxDigits w =
        (some (true, value), { w with keys := rest', console := w.console ++ ops }) ∧
      (editedLine maxDigits typed ≠ [] → value.toNat = hexValue (editedLine maxDigits typed))
  wait : rest = [] → (tuiReadHex fw maxDigits w).1 = none

/-- **`TuiReadHex` is a line editor.**  Whatever has been typed before the first ESC
    or Enter, the buffer and the screen hold the line; `Index` is in the buffer; ESC
    gives `FALSE` and 0, Enter `TRUE` and the value of the line, and without either
    the call does not return. -/
theorem tuiReadHex_edits (fw : Firmware) (hpos : Positional fw.strHexToUint64) (w : UefiWorld)
    (maxDigits : NxUintn) (hmax : maxDigits ≤ 16) (typed rest : List EfiInputKey)
    (hkeys : w.keys = typed ++ rest) (htyping : ∀ key ∈ typed, KeepsTyping key) :
    ∃ buffer index ops, Editing fw w maxDigits typed rest buffer index ops := by
  have hlimit : digitLimit maxDigits = maxDigits.toNat := by
    have hle : maxDigits.toNat ≤ 16 := hmax
    rw [digitLimit, hexBufferSize, if_neg (by omega)]
  obtain ⟨buffer, index, hloop, hline⟩ := @tuiReadHex_after fw w typed rest maxDigits hkeys htyping
  have hedited : typedLine maxDigits typed = editedLine maxDigits typed := by
    rw [typedLine, hlimit, editedLine]
  rw [hedited] at hline
  rw [hlimit] at hloop hline
  refine ⟨buffer, index, echo maxDigits.toNat [] typed, hloop, hline.take, hline.index_eq,
    ⟨hline.size, hline.size ▸ hline.index_lt⟩, ?_, ?_, ?_, ?_⟩
  · intro columns step outputChar hecho g₀ hroom
    exact hecho.echo hroom typed [] g₀ (Edited.refl _ g₀) (Nat.zero_le _)
  · rintro key rest' rfl hesc
    rw [hloop]
    exact tuiReadHexLoop_cancel hesc rfl
  · rintro key rest' rfl hkey
    refine ⟨fw.strHexToUint64 (editedLine maxDigits typed), ?_, fun hne => ?_⟩
    · rw [hloop]
      exact tuiReadHexLoop_confirm hkey rfl hline
    · exact hpos _ hne (hline.length_le.trans hmax) hline.digits
  · rintro rfl
    rw [hloop]
    rfl

/-! ## A teletype -/

/-- A character on a teletype. -/
def teletypeChar (g : Screen) (c : NxUiChar) : Screen :=
  if c = charBackspace then g.left else g.put [c]

/-- A console that prints one character for `%c`, and other formats as they are. -/
def teletype (g : Screen) : ConsoleOp → Screen
  | .clearScreen => g.clear
  | .setAttribute attr => g.setAttr attr
  | .setCursorPosition column row => g.moveTo column.toNat row.toNat
  | .print format [.char c] =>
    if format = wide "%c" then teletypeChar g c else format.foldl teletypeChar g
  | .print format _ => format.foldl teletypeChar g

theorem teletype_echoes (columns : ℕ) : Echoes columns teletype teletypeChar where
  print_char g c := by rw [teletype, if_pos rfl]
  print_text g text _ := rfl
  printable g c hc _ := by
    refine if_neg ?_
    rintro rfl
    exact absurd hc (by decide)
  backspace g _ _ := if_pos rfl

/-- The keys `1`, `x`, `2`, `3`, backspace and `f`. -/
def editKeys : List EfiInputKey :=
  [⟨0, L '1'⟩, ⟨0, L 'x'⟩, ⟨0, L '2'⟩, ⟨0, L '3'⟩, ⟨0, charBackspace⟩, ⟨0, L 'f'⟩]

theorem tuiReadHex_edits_f :
    editedLine 2 editKeys = [L '1', L 'f'] ∧
    (∃ value : NxU64, (tuiReadHex codecFirmware 2
        { enterWorld with keys := editKeys ++ [⟨0, charCarriageReturn⟩] }).1 = some (true, value) ∧
      value.toNat = 0x1F) ∧
    ∃ ops : List ConsoleOp, Grid.ShowsText (ops.foldl teletype ⟨Grid.blank, 0, 0, 18⟩).cells 0 18
      [L '1', L 'f'] := by
  have hline : editedLine 2 editKeys = [L '1', L 'f'] := by decide
  obtain ⟨buffer, index, ops, h⟩ := tuiReadHex_edits codecFirmware codecFirmware_positional
    { enterWorld with keys := editKeys ++ [⟨0, charCarriageReturn⟩] } 2 (by decide) editKeys
    [⟨0, charCarriageReturn⟩] rfl (by unfold KeepsTyping; decide)
  refine ⟨hline, ?_, ops, ?_⟩
  · obtain ⟨value, hcall, hvalue⟩ := h.confirm ⟨0, charCarriageReturn⟩ [] rfl ⟨by decide, rfl⟩
    rw [hline] at hvalue
    exact ⟨value, by rw [hcall], hvalue (List.cons_ne_nil _ _)⟩
  · have hscreen := (h.screen 80 teletype teletypeChar (teletype_echoes 80)
      ⟨Grid.blank, 0, 0, 18⟩ (by decide)).shows
    rw [hline] at hscreen
    exact hscreen

end UefiNexus
