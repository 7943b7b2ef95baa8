/-
  The hexadecimal prompts.

  * `typedLine n keys`: the digits left on the line after the keys, and
    `echo n line keys`: what they print;
  * `tuiReadHex_after`: after any keys that keep typing, the loop goes on with
    that line in its buffer;
  * `tuiReadHex_enter`: Enter returns the value of the line, whatever the line
    is — the empty line too, which confirms a value that was never typed
    (`empty_prompt_acts`).
-/
import UefiNexus.Lib.CString
import UefiNexus.NexusMemLib.Firmware
import UefiNexus.Proof.Machine
import UefiNexus.Proof.Outcomes

namespace UefiNexus

open CString (Filled)

/-! ## The line -/

/-- The line after a key. -/
def typeKey (maxDigits : ℕ) (line : List NxUiChar) (key : EfiInputKey) : List NxUiChar :=
  if isHexDigit key.unicodeChar = true ∧ line.length < maxDigits then line ++ [key.unicodeChar]
  else if key.unicodeChar = charBackspace then line.dropLast
  else line

/-- The number of digits the prompt takes. -/
def digitLimit (maxDigits : NxUintn) : ℕ :=
  if maxDigits.toNat ≥ hexBufferSize then hexBufferSize - 1 else maxDigits.toNat

/-- The line after the keys. -/
def typedLine (maxDigits : NxUintn) (keys : List EfiInputKey) : List NxUiChar :=
  keys.foldl (typeKey (digitLimit maxDigits)) []

/-- The requests of the echo of a key. -/
def echoKey (maxDigits : ℕ) (line : List NxUiChar) (key : EfiInputKey) : List ConsoleOp :=
  if isHexDigit key.unicodeChar = true ∧ line.length < maxDigits then
    [.print (wide "%c") [.char key.unicodeChar]]
  else if key.unicodeChar = charBackspace ∧ line ≠ [] then
    [.print [charBackspace, L ' ', charBackspace] []]
  else []

/-- The echo of the keys. -/
def echo (maxDigits : ℕ) : List NxUiChar → List EfiInputKey → List ConsoleOp
  | _, [] => []
  | line, key :: keys =>
    echoKey maxDigits line key ++ echo maxDigits (typeKey maxDigits line key) keys

/-- The key neither leaves the prompt nor confirms it. -/
def KeepsTyping (key : EfiInputKey) : Prop :=
  key.scanCode ≠ scanEsc ∧ key.unicodeChar ≠ charCarriageReturn

/-- The key confirms the prompt. -/
def Confirms (key : EfiInputKey) : Prop :=
  key.scanCode ≠ scanEsc ∧ key.unicodeChar = charCarriageReturn

/-- `Buffer` and `Index` hold the line. -/
structure HoldsLine (maxDigits : ℕ) (buffer : List NxUiChar) (index : ℕ) (line : List NxUiChar) :
    Prop where
  size : buffer.length = hexBufferSize
  limit : maxDigits < hexBufferSize
  index_eq : index = line.length
  take : buffer.take index = line
  length_le : line.length ≤ maxDigits
  digits : ∀ c ∈ line, isHexDigit c = true

theorem digitLimit_lt (maxDigits : NxUintn) : digitLimit maxDigits < hexBufferSize := by
  unfold digitLimit
  split_ifs with h
  · decide
  · exact Nat.lt_of_not_le h

theorem isHexDigit_ne_zero {c : NxUiChar} (h : isHexDigit c = true) : c ≠ 0 := by
  rintro rfl; exact absurd h (by decide)

theorem isHexDigit_ne_backspace {c : NxUiChar} (h : isHexDigit c = true) : c ≠ charBackspace := by
  rintro rfl; exact absurd h (by decide)

section
variable {maxDigits index : ℕ} {buffer line : List NxUiChar} {key : EfiInputKey}

theorem HoldsLine.index_lt (h : HoldsLine maxDigits buffer index line) : index < buffer.length := by
  rw [h.size, h.index_eq]
  exact Nat.lt_of_le_of_lt h.length_le h.limit

theorem HoldsLine.filled (h : HoldsLine maxDigits buffer index line) : Filled buffer index line :=
  ⟨h.take, h.index_lt.le⟩

/-- The string in the buffer, when the line is ended. -/
theorem HoldsLine.cstr_eq (h : HoldsLine maxDigits buffer index line) :
    cstr (buffer.set index 0) = line := by
  refine (h.filled.set (Nat.le_refl _) 0).string ?_ (List.getElem?_set_self h.index_lt)
  intro hzero
  exact isHexDigit_ne_zero (h.digits 0 hzero) rfl

theorem HoldsLine.append (h : HoldsLine maxDigits buffer index line)
    (hdigit : isHexDigit key.unicodeChar = true) (hroom : line.length < maxDigits) :
    HoldsLine maxDigits (buffer.set index key.unicodeChar) (index + 1)
      (line ++ [key.unicodeChar]) where
  size := by rw [List.length_set, h.size]
  limit := h.limit
  index_eq := by rw [h.index_eq, List.length_append]; rfl
  take := (h.filled.push h.index_lt key.unicodeChar).take
  length_le := by rw [List.length_append]; exact hroom
  digits := by
    intro c hc
    rcases List.mem_append.1 hc with hc | hc
    · exact h.digits c hc
    · rw [List.mem_singleton.1 hc]; exact hdigit

theorem HoldsLine.erase (h : HoldsLine maxDigits buffer index line) :
    HoldsLine maxDigits buffer (index - 1) line.dropLast where
  size := h.size
  limit := h.limit
  index_eq := by rw [List.length_dropLast, h.index_eq]
  take := h.filled.pop.take
  length_le := by
    rw [List.length_dropLast]; exact (Nat.sub_le _ _).trans h.length_le
  digits c hc := h.digits c (List.dropLast_subset line hc)

/-- A turn of the loop types the key, and echoes it. -/
theorem editHexBuffer_eq (key : EfiInputKey) (h : HoldsLine maxDigits buffer index line)
    (w : UefiWorld) :
    ∃ buffer' index',
      editHexBuffer maxDigits key buffer index w =
        (some (buffer', index'), { w with console := w.console ++ echoKey maxDigits line key }) ∧
      HoldsLine maxDigits buffer' index' (typeKey maxDigits line key) := by
  by_cases hdigit : isHexDigit key.unicodeChar = true ∧ index < maxDigits
  · have hback : ¬ (key.unicodeChar = charBackspace ∧ index + 1 > 0) := fun hb =>
      isHexDigit_ne_backspace hdigit.1 hb.1
    have hroom := h.index_eq ▸ hdigit
    rw [typeKey, echoKey, if_pos hroom, if_pos hroom]
    refine ⟨_, _, ?_, h.append hroom.1 hroom.2⟩
    simp only [editHexBuffer, if_pos hdigit]
    rw [Prog.bind_of_some (show print _ _ w = (some (), _) from rfl)]
    exact congrFun (if_neg hback) _
  · have hroom := h.index_eq ▸ hdigit
    rw [typeKey, echoKey, if_neg hroom, if_neg hroom]
    simp only [editHexBuffer, if_neg hdigit]
    by_cases hback : key.unicodeChar = charBackspace
    · rw [if_pos hback]
      by_cases hnil : line = []
      · have hzero : ¬ index > 0 := by
          rw [h.index_eq, hnil]
          exact Nat.lt_irrefl 0
        rw [if_neg fun hb => hb.2 hnil, List.append_nil]
        refine ⟨buffer, index, congrFun (if_neg fun hb => hzero hb.2) w, ?_⟩
        rw [hnil] at h ⊢
        exact h
      · have hpos : index > 0 := by
          rw [h.index_eq]
          exact List.length_pos_iff.2 hnil
        rw [if_pos ⟨hback, hnil⟩]
        exact ⟨buffer, index - 1, congrFun (if_pos ⟨hback, hpos⟩) w, h.erase⟩
    · rw [if_neg hback, if_neg fun hb => hback hb.1, List.append_nil]
      exact ⟨buffer, index, congrFun (if_neg fun hb => hback hb.1) w, h⟩

variable {strHexToUint64 : List NxUiChar → NxU64} {w : UefiWorld} {rest : List EfiInputKey}

/-- **The loop, up to any key.**  After keys that keep typing it goes on with the
    line they type in the buffer. -/
theorem tuiReadHexLoop_after {fuel : ℕ} :
    ∀ (keys : List EfiInputKey) (buffer : List NxUiChar) (index : ℕ) (line : List NxUiChar)
      (w : UefiWorld), HoldsLine maxDigits buffer index line → w.keys = keys ++ rest →
      (∀ key ∈ keys, KeepsTyping key) →
      ∃ buffer' index', tuiReadHexLoop strHexToUint64 maxDigits (fuel + keys.length) buffer index w =
          tuiReadHexLoop strHexToUint64 maxDigits fuel buffer' index'
            { w with keys := rest, console := w.console ++ echo maxDigits line keys } ∧
        HoldsLine maxDigits buffer' index' (keys.foldl (typeKey maxDigits) line)
  | [], buffer, index, line, w, h, hkeys, _ => by
    refine ⟨buffer, index, ?_, h⟩
    rw [echo, List.append_nil, ← List.nil_append rest, ← hkeys]
    rfl
  | key :: keys, buffer, index, line, w, h, hkeys, htyping => by
    have hread : tuiReadKey w = (some key, { w with keys := keys ++ rest }) := by
      rw [tuiReadKey, hkeys]; rfl
    obtain ⟨hesc, hcr⟩ := htyping key (List.mem_cons_self ..)
    obtain ⟨buffer₁, index₁, hedit, h₁⟩ :=
      editHexBuffer_eq key h { w with keys := keys ++ rest }
    obtain ⟨buffer', index', hloop, h'⟩ := tuiReadHexLoop_after keys buffer₁ index₁
      (typeKey maxDigits line key)
      { w with keys := keys ++ rest, console := w.console ++ echoKey maxDigits line key } h₁ rfl
      fun k hk => htyping k (List.mem_cons_of_mem _ hk)
    refine ⟨buffer', index', ?_, h'⟩
    rw [List.length_cons, ← Nat.add_assoc, tuiReadHexLoop, Prog.bind_of_some hread, if_neg hesc,
      if_neg hcr, Prog.bind_of_some hedit]
    refine hloop.trans ?_
    rw [echo, List.append_assoc]

/-- Enter ends the line and returns its value. -/
theorem tuiReadHexLoop_confirm {fuel : ℕ} {key : EfiInputKey} (hkey : Confirms key)
    (hkeys : w.keys = key :: rest) (h : HoldsLine maxDigits buffer index line) :
    tuiReadHexLoop strHexToUint64 maxDigits (fuel + 1) buffer index w =
      (some (true, strHexToUint64 line), { w with keys := rest }) := by
  have hread : tuiReadKey w = (some key, { w with keys := rest }) := by
    rw [tuiReadKey, hkeys]
  rw [tuiReadHexLoop, Prog.bind_of_some hread, if_neg hkey.1, if_pos hkey.2, h.cstr_eq]
  rfl

/-- ESC returns `FALSE`. -/
theorem tuiReadHexLoop_cancel {fuel : ℕ} {key : EfiInputKey} (hkey : key.scanCode = scanEsc)
    (hkeys : w.keys = key :: rest) :
    tuiReadHexLoop strHexToUint64 maxDigits (fuel + 1) buffer index w =
      (some (false, 0), { w with keys := rest }) := by
  have hread : tuiReadKey w = (some key, { w with keys := rest }) := by
    rw [tuiReadKey, hkeys]
  rw [tuiReadHexLoop, Prog.bind_of_some hread, if_pos hkey]
  rfl

end

/-- The buffer holds the empty line before the first key. -/
theorem holdsLine_empty {maxDigits : ℕ} (h : maxDigits < hexBufferSize) :
    HoldsLine maxDigits (List.replicate hexBufferSize (BitVec.allOnes 16)) 0 [] :=
  ⟨rfl, h, rfl, rfl, Nat.zero_le _, by simp⟩

/-! ## The prompts -/

section
variable {fw : Firmware} {w : UefiWorld} {keys rest : List EfiInputKey} {enter : EfiInputKey}

/-- **The call, up to any key.** -/
theorem tuiReadHex_after (maxDigits : NxUintn) (hkeys : w.keys = keys ++ rest)
    (htyping : ∀ key ∈ keys, KeepsTyping key) :
    ∃ buffer index, tuiReadHex fw maxDigits w =
        tuiReadHexLoop fw.strHexToUint64 (digitLimit maxDigits) rest.length buffer index
          { w with keys := rest, console := w.console ++ echo (digitLimit maxDigits) [] keys } ∧
      HoldsLine (digitLimit maxDigits) buffer index (typedLine maxDigits keys) := by
  have hfuel : w.keys.length = rest.length + keys.length := by
    rw [hkeys, List.length_append, Nat.add_comm]
  obtain ⟨buffer, index, hloop, hline⟩ := tuiReadHexLoop_after keys _ 0 [] w
    (holdsLine_empty (digitLimit_lt maxDigits)) hkeys htyping
  refine ⟨buffer, index, Eq.trans ?_ hloop, hline⟩
  rw [← hfuel]
  rfl

/-- **Enter returns the value of the line.** -/
theorem tuiReadHex_enter (maxDigits : NxUintn) (hkeys : w.keys = keys ++ enter :: rest)
    (htyping : ∀ key ∈ keys, KeepsTyping key) (henter : Confirms enter) :
    ∃ console, tuiReadHex fw maxDigits w =
      (some (true, fw.strHexToUint64 (typedLine maxDigits keys)),
        { w with keys := rest, console := console }) := by
  obtain ⟨buffer, index, hloop, hline⟩ := tuiReadHex_after maxDigits hkeys htyping
  refine ⟨w.console ++ echo (digitLimit maxDigits) [] keys, ?_⟩
  rw [hloop]
  exact tuiReadHexLoop_confirm henter rfl hline

/-- The request of `clearStatusLine`. -/
theorem clearStatusLine_uefi (fw : Firmware) (w : UefiWorld) :
    ∃ console, clearStatusLine (tuiAdapter fw) w = (some (), { w with console := console }) :=
  ⟨_, rfl⟩

/-- The prompt of an edit, when it is confirmed. -/
theorem valuePrompt_enter (pageState : PageMemPageState) (hkeys : w.keys = keys ++ enter :: rest)
    (htyping : ∀ key ∈ keys, KeepsTyping key) (henter : Confirms enter) :
    ∃ console, valuePrompt (tuiAdapter fw) pageState w =
      (some (true, fw.strHexToUint64 (typedLine (pageState.cursorState.width * 2) keys)),
        { w with keys := rest, console := console }) := by
  obtain ⟨console₁, hclear⟩ := clearStatusLine_uefi fw w
  have hshow : ∃ console₂, (tuiAdapter fw).outputStringAt 0 pageMemStatusRow
      (wide "Edit value (hex): ") { w with console := console₁ } =
        (some (), { w with console := console₂ }) := ⟨_, rfl⟩
  obtain ⟨console₂, hshow⟩ := hshow
  obtain ⟨console₃, hread⟩ := @tuiReadHex_enter fw { w with console := console₂ } _ _ _
    (pageState.cursorState.width * 2) hkeys htyping henter
  refine ⟨console₃, ?_⟩
  rw [valuePrompt, Prog.bind_of_some hclear, Prog.bind_of_some hshow]
  exact hread

/-- An edit whose prompt is confirmed writes the value of the line. -/
theorem editValue_enter {pageState : PageMemPageState}
    (hkeys : w.keys = keys ++ enter :: rest) (htyping : ∀ key ∈ keys, KeepsTyping key)
    (henter : Confirms enter) (haccept : editRejects pageState = none)
    (hfits : pageMemValueFitsWidth
      (fw.strHexToUint64 (typedLine (pageState.cursorState.width * 2) keys))
      pageState.cursorState.width = true) :
    ∃ console, pageMemActionEditValue pageState (uefiAdapters fw) w =
      uefiBridgeMemWrite fw (pageCoreGetCurrentAddress pageState.cursorState)
        pageState.cursorState.width
        (fw.strHexToUint64 (typedLine (pageState.cursorState.width * 2) keys))
        { w with keys := rest, console := console } := by
  obtain ⟨console, hprompt⟩ := @valuePrompt_enter fw w keys rest enter pageState hkeys htyping henter
  refine ⟨console, ?_⟩
  rw [editValue_eq, haccept]
  refine (Prog.bind_of_some hprompt).trans ?_
  simp only [commitValue, not_true_eq_false, if_false, hfits]
  rfl

/-- A goto whose prompt is confirmed goes to the value of the line. -/
theorem gotoAddress_enter (pageState : PageMemPageState)
    (hkeys : w.keys = keys ++ enter :: rest) (htyping : ∀ key ∈ keys, KeepsTyping key)
    (henter : Confirms enter) :
    (pageMemActionGotoAddress pageState (uefiAdapters fw) w).1 =
      some (.success, gotoState pageState (fw.strHexToUint64 (typedLine 16 keys))) := by
  have hshow : ∃ console, (tuiAdapter fw).outputStringAt pageMemGotoPromptColumn pageMemHelpRow
      (wide "Goto address (hex):") w = (some (), { w with console := console }) := ⟨_, rfl⟩
  obtain ⟨console, hshow⟩ := hshow
  obtain ⟨console', hread⟩ := @tuiReadHex_enter fw { w with console := console } _ _ _ 16 hkeys
    htyping henter
  have hprompt : gotoPrompt (tuiAdapter fw) w =
      (some (true, fw.strHexToUint64 (typedLine 16 keys)),
        { w with keys := rest, console := console' }) := by
    rw [gotoPrompt, Prog.bind_of_some hshow]
    exact hread
  exact congrArg Prod.fst (Prog.bind_of_some hprompt)

end

/-- **An empty prompt that is confirmed acts.**  Whenever Enter is pressed while
    the line is empty, `TuiReadHex` returns `TRUE`, with the value of the empty
    string.  An edit that may write therefore writes that value, and goto goes
    to it. -/
theorem empty_prompt_acts (fw : Firmware) (w : UefiWorld) (keys rest : List EfiInputKey)
    (enter : EfiInputKey) (hkeys : w.keys = keys ++ enter :: rest)
    (htyping : ∀ key ∈ keys, KeepsTyping key) (henter : Confirms enter) :
    (∀ maxDigits, typedLine maxDigits keys = [] →
      (tuiReadHex fw maxDigits w).1 = some (true, fw.strHexToUint64 []) ∧
      ∀ value, (tuiReadHex fw maxDigits w).1 ≠ some (false, value)) ∧
    (∀ pageState : PageMemPageState,
      typedLine (pageState.cursorState.width * 2) keys = [] →
      pageState.cursorState.offset % pageState.cursorState.width = 0 →
      pageCoreIsRangeValid pageState.addressMap (pageCoreGetCurrentAddress pageState.cursorState)
        pageState.cursorState.width = true →
      WriteAllowed fw.bootServices w.memLib (pageCoreGetCurrentAddress pageState.cursorState)
        pageState.cursorState.width →
      pageMemValueFitsWidth (fw.strHexToUint64 []) pageState.cursorState.width = true →
        (pageMemActionEditValue pageState (uefiAdapters fw) w).1 = some .success ∧
        (pageMemActionEditValue pageState (uefiAdapters fw) w).2.memory =
          ByteMem.store w.memory (pageCoreGetCurrentAddress pageState.cursorState)
            pageState.cursorState.width.toNat (fw.strHexToUint64 []).toNat) ∧
    (∀ pageState : PageMemPageState, typedLine 16 keys = [] →
      (pageMemActionGotoAddress pageState (uefiAdapters fw) w).1 =
        some (.success, gotoState pageState (fw.strHexToUint64 []))) := by
  refine ⟨fun maxDigits hline => ?_, fun pageState hline halign hvalid hwrite hfits => ?_,
    fun pageState hline => ?_⟩
  · obtain ⟨console, hread⟩ := @tuiReadHex_enter fw w keys rest enter maxDigits hkeys htyping henter
    rw [hline] at hread
    rw [hread]
    exact ⟨rfl, fun value h => by cases h⟩
  · rw [← hline] at hfits ⊢
    obtain ⟨console, hedit⟩ := editValue_enter hkeys htyping henter
      (editRejects_eq_none_iff.2 ⟨hwrite.1, halign, hvalid⟩) hfits
    rw [hedit]
    have hwrite' : WriteAllowed fw.bootServices
        { w with keys := rest, console := console : UefiWorld }.memLib
        (pageCoreGetCurrentAddress pageState.cursorState) pageState.cursorState.width := hwrite
    obtain ⟨lib', hdone, -⟩ := uefiBridgeMemWrite_of_allowed
      (fw.strHexToUint64 (typedLine (pageState.cursorState.width * 2) keys)) hwrite'
    rw [hdone]
    exact ⟨rfl, rfl⟩
  · rw [← hline]
    exact gotoAddress_enter pageState hkeys htyping henter

/-- A page of conventional memory full of `0xAA`, and Enter as the only key. -/
def enterWorld : UefiWorld :=
  { UefiWorld.boot (fun _ => 0xAA) [⟨0, charCarriageReturn⟩] with
    memLib := .ofDescriptors [⟨7, 0x1000, 1, 0⟩] (some fun _ _ => (efiSuccess, 0)) }

/-- That firmware; the value of the empty string is zero. -/
def enterFirmware : Firmware :=
  .ofMap (.ofDescriptors [⟨7, 0x1000, 1, 0⟩] FirmwareMap.onePage_fits)
    (some fun _ _ => (efiSuccess, 0)) fun _ => 0

/-- The cursor on the first byte of the page. -/
def enterState : PageMemPageState :=
  ⟨.viewing, ⟨0x1000, 0, 1⟩, ⟨some [⟨.conventional, 0x1000, 1, 0, 7⟩]⟩, 7, true,
    ⟨0, 0, true, true, true, true⟩, false⟩

theorem empty_prompt_acts_enter :
    (tuiReadHex enterFirmware 2 enterWorld).1 = some (true, 0) ∧
      ∀ value, (tuiReadHex enterFirmware 2 enterWorld).1 ≠ some (false, value) :=
  (empty_prompt_acts enterFirmware enterWorld [] [] ⟨0, charCarriageReturn⟩ rfl (by simp)
    ⟨by decide, rfl⟩).1 2 rfl

/-- Nothing but Enter is typed: the prompt returns a value, the edit writes it,
    and goto leaves the page. -/
theorem enter_writes_zero :
    (tuiReadHex enterFirmware 2 enterWorld).1 = some (true, 0) ∧
    (pageMemActionEditValue enterState (uefiAdapters enterFirmware) enterWorld).1 =
      some .success ∧
    enterWorld.memory 0x1000 = 0xAA ∧
    (pageMemActionEditValue enterState (uefiAdapters enterFirmware) enterWorld).2.memory 0x1000 =
      0 ∧
    (pageMemActionGotoAddress enterState (uefiAdapters enterFirmware) enterWorld).1 =
      some (.success, gotoState enterState 0) ∧
    (gotoState enterState 0).cursorState ≠ enterState.cursorState :=
  ⟨by decide, by decide, by decide, by decide, by decide, by decide⟩

end UefiNexus
