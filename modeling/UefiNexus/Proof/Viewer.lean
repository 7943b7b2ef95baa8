/-
  PageMem is the viewer.

  * `view s w`: the state of the viewer in a page state and a machine;
    `viewed`: what it is used on, with a memory map;
  * `handleKeyPress_view`: a key does to the view what it does to the viewer, the
    keys it takes at a prompt or a list included; each command has its lemma;
  * `pageMem_refines`: so does every run, from its first key to its last.
-/
import UefiNexus.Abstract.Viewer
import UefiNexus.Lib.Refine
import UefiNexus.Proof.Area
import UefiNexus.Proof.Browsable
import UefiNexus.Proof.Leaving
import UefiNexus.Proof.LineEditor
import UefiNexus.Proof.MapCopy
import UefiNexus.Proof.Noninterference
import UefiNexus.Proof.Writes

namespace UefiNexus

open Viewer

/-- The state of the viewer. -/
def view (s : PageMemPageState) (w : UefiWorld) : Viewer where
  block := s.cursorState.address.toNat
  offset := s.cursorState.offset.toNat
  width := s.cursorState.width.toNat
  memory := w.memory
  keys := w.keys

/-- What the viewer is used on, with the address map of a page state and the map of
    NexusMemLib. -/
def viewed (fw : Firmware) (map : PageMemAddressMap) (lib : MemLib) : Viewed where
  blocks := {p | ∃ q : NxU64, Block map q ∧ q.toNat = p}
  mapped a n := pageCoreIsRangeValid map (BitVec.ofNat 64 a) (BitVec.ofNat 64 n) = true
  writable a n := WriteAllowed fw.bootServices lib (BitVec.ofNat 64 a) (BitVec.ofNat 64 n)
  fullScreens := (listedDescriptors true lib).length / linesPerScreen

/-! ## The cursor -/

section
variable {c : PageMemCursorState}

/-- A move by some bytes selects the cell there. -/
theorem moveCursor_select (hw : WidthOk c.width) (hoffset : c.offset.toNat < 256) {delta : NxIntn}
    {bytes : ℤ} (hdelta : delta * c.width = BitVec.ofInt 64 bytes) (hlow : -256 ≤ bytes)
    (hhigh : bytes ≤ 256) :
    (pageCoreMoveCursor c delta).offset.toNat =
      select c.width.toNat (c.offset.toNat + bytes) := by
  have hle8 := hw.toNat_le
  have hpos := hw.powTwo.pos
  have hstep : (if c.width.sle 0 then 1 else c.width) = c.width := by
    obtain h | h | h | h := hw <;> rw [h] <;> rfl
  have hwidth : (if c.width = 0 then 1 else c.width) = c.width := by
    obtain h | h | h | h := hw <;> rw [h] <;> rfl
  have hlast : (pageSize - c.width).toNat = 256 - c.width.toNat := by
    obtain h | h | h | h := hw <;> rw [h] <;> rfl
  have hround : ∀ x : NxUintn, (if c.width > 1 then x &&& ~~~(c.width - 1) else x).toNat =
      x.toNat / c.width.toNat * c.width.toNat := by
    intro x
    have hdiv := Nat.div_add_mod x.toNat c.width.toNat
    rw [Nat.mul_comm] at hdiv
    split_ifs with h
    · have hmask := Align.toNat_and_not_mask hw.powTwo (x := x)
      omega
    · have h1 : c.width.toNat = 1 := by
        rw [gt_iff_lt, BitVec.lt_def] at h
        have h1 : (1 : NxUintn).toNat = 1 := rfl
        omega
      rw [h1, Nat.div_one, Nat.mul_one]
  unfold pageCoreMoveCursor select
  simp only [hstep, hwidth, hround, hdelta]
  congr 2
  -- the sum is negative as a word exactly if it is as a number
  have hsum : (c.offset + BitVec.ofInt 64 bytes).toNat =
      if c.offset.toNat + bytes < 0 then (c.offset.toNat + bytes + 2 ^ 64).toNat
      else (c.offset.toNat + bytes).toNat := by
    rw [BitVec.toNat_add, BitVec.toNat_ofInt]
    split_ifs
    · omega
    · omega
  have hslt : (c.offset + BitVec.ofInt 64 bytes).slt 0 = true ↔ c.offset.toNat + bytes < 0 := by
    rw [BitVec.slt_iff_toInt_lt, BitVec.toInt_eq_toNat_cond, hsum]
    have h0 : (0 : NxUintn).toInt = 0 := rfl
    rw [h0]
    split_ifs
    · omega
    · omega
    · omega
    · omega
  by_cases hneg : c.offset.toNat + bytes < 0
  · have h0 : ¬ (0 : NxUintn) > pageSize - c.width := by
      rw [gt_iff_lt, BitVec.lt_def, hlast]
      exact Nat.not_lt_zero _
    rw [if_pos (hslt.2 hneg), if_neg h0]
    have h0 : (0 : NxUintn).toNat = 0 := rfl
    omega
  · rw [if_neg fun h => hneg (hslt.1 h)]
    rw [if_neg hneg] at hsum
    split_ifs with hgt <;> rw [gt_iff_lt, BitVec.lt_def, hlast, hsum] at hgt
    · omega
    · omega

/-- A new width rounds the offset down. -/
theorem setCursorWidth_offset {width : NxUintn} (hw : WidthOk width)
    (hoffset : c.offset.toNat < 256) :
    (pageCoreSetCursorWidth c width).offset.toNat =
      c.offset.toNat / width.toNat * width.toNat := by
  have hwidth : (if width = 0 then 1 else width) = width := by
    obtain rfl | rfl | rfl | rfl := hw <;> rfl
  have hmask := Align.toNat_and_not_mask hw.powTwo (x := c.offset)
  have hdiv := Nat.div_add_mod c.offset.toNat width.toNat
  rw [Nat.mul_comm] at hdiv
  have hlt : ¬ c.offset &&& ~~~(width - 1) ≥ pageSize := by
    rw [ge_iff_le, BitVec.le_def, pageSize_toNat, hmask]
    omega
  unfold pageCoreSetCursorWidth
  simp only [hwidth, if_neg hlt, hmask]
  omega

/-- A cursor is its numbers. -/
theorem cursor_of_toNat {c' : PageMemCursorState} (haddress : c.address.toNat = c'.address.toNat)
    (hoffset : c.offset.toNat = c'.offset.toNat) (hwidth : c.width.toNat = c'.width.toNat) :
    c = c' := by
  obtain ⟨address, offset, width⟩ := c
  obtain ⟨address', offset', width'⟩ := c'
  obtain rfl : address = address' := BitVec.eq_of_toNat_eq haddress
  obtain rfl : offset = offset' := BitVec.eq_of_toNat_eq hoffset
  obtain rfl : width = width' := BitVec.eq_of_toNat_eq hwidth
  rfl

/-- A key as the bridge hands it over. -/
def uiKey (key : EfiInputKey) : NxUiKey := ⟨key.scanCode.setWidth 32, key.unicodeChar⟩

theorem scan_eq {code : BitVec 16} (n : ℕ) (hn : n < 2 ^ 16) :
    code.setWidth 32 = BitVec.ofNat 32 n ↔ code = BitVec.ofNat 16 n := by
  have hcode := code.isLt
  constructor
  · intro h
    have hnat := congrArg BitVec.toNat h
    rw [BitVec.toNat_setWidth, BitVec.toNat_ofNat] at hnat
    apply BitVec.eq_of_toNat_eq
    rw [BitVec.toNat_ofNat]
    omega
  · rintro rfl
    apply BitVec.eq_of_toNat_eq
    rw [BitVec.toNat_setWidth, BitVec.toNat_ofNat, BitVec.toNat_ofNat]
    omega

theorem uiKey_not_esc {key : EfiInputKey} (h : key.scanCode ≠ scanEsc) :
    (uiKey key).scanCode ≠ nxUiScanEsc := fun heq => h ((scan_eq 0x17 (by omega)).1 heq)

/-- The arrow keys. -/
theorem keyDelta_eq (key : EfiInputKey) (width : NxUintn) : keyDelta (uiKey key) width =
    if key.scanCode = 0x0001 then -(cols / width)
    else if key.scanCode = 0x0002 then cols / width
    else if key.scanCode = 0x0004 then -1
    else if key.scanCode = 0x0003 then 1
    else 0 := by
  have hup : key.scanCode.setWidth 32 = nxUiScanUp ↔ key.scanCode = 0x0001 := scan_eq 1 (by omega)
  have hdown : key.scanCode.setWidth 32 = nxUiScanDown ↔ key.scanCode = 0x0002 :=
    scan_eq 2 (by omega)
  have hleft : key.scanCode.setWidth 32 = nxUiScanLeft ↔ key.scanCode = 0x0004 :=
    scan_eq 4 (by omega)
  have hright : key.scanCode.setWidth 32 = nxUiScanRight ↔ key.scanCode = 0x0003 :=
    scan_eq 3 (by omega)
  simp only [keyDelta, uiKey, hup, hdown, hleft, hright]

theorem keyDelta_of_arrow {key : EfiInputKey} {bytes : ℤ} (hw : WidthOk c.width)
    (h : arrow c.width.toNat key = some bytes) :
    keyDelta (uiKey key) c.width ≠ 0 ∧
      keyDelta (uiKey key) c.width * c.width = BitVec.ofInt 64 bytes ∧
      -256 ≤ bytes ∧ bytes ≤ 256 := by
  have hle8 := hw.toNat_le
  rw [keyDelta_eq]
  unfold arrow at h
  split_ifs at h ⊢ <;> obtain rfl := Option.some.inj h
  · obtain h | h | h | h := hw <;> rw [h] <;> exact ⟨by decide, by decide, by omega, by omega⟩
  · obtain h | h | h | h := hw <;> rw [h] <;> exact ⟨by decide, by decide, by omega, by omega⟩
  · obtain h | h | h | h := hw <;> rw [h] <;> exact ⟨by decide, by decide, by decide, by decide⟩
  · obtain h | h | h | h := hw <;> rw [h] <;> exact ⟨by decide, by decide, by decide, by decide⟩

theorem keyDelta_of_none {key : EfiInputKey} (h : arrow c.width.toNat key = none) :
    keyDelta (uiKey key) c.width = 0 := by
  rw [keyDelta_eq]
  unfold arrow at h
  split_ifs at h ⊢
  rfl

end

/-! ## What a program does to the view -/

section
variable {fw : Firmware} {s s' : PageMemPageState} {w w' : UefiWorld}

/-- The view after a program, if it returns. -/
def answer (m : Prog UefiWorld (NxStatus × PageMemPageState)) (w : UefiWorld) : Option Viewer :=
  (m w).1.map fun r => view r.2 (m w).2

theorem answer_of_some {m : Prog UefiWorld (NxStatus × PageMemPageState)} {status : NxStatus}
    (h : m w = (some (status, s'), w')) : answer m w = some (view s' w') := by
  unfold answer
  rw [h]
  rfl

theorem answer_bind {α : Type} {m : Prog UefiWorld α} {a : α}
    {f : α → Prog UefiWorld (NxStatus × PageMemPageState)} (h : m w = (some a, w')) :
    answer (m >>= f) w = answer (f a) w' := by
  unfold answer
  rw [Prog.bind_of_some h]

theorem answer_bind_none {α : Type} {m : Prog UefiWorld α}
    {f : α → Prog UefiWorld (NxStatus × PageMemPageState)} (h : m w = (none, w')) :
    answer (m >>= f) w = none := by
  unfold answer
  rw [Prog.bind_of_none h]
  rfl

/-- The view depends on the cursor, the memory and the keys. -/
theorem view_congr (hcursor : s'.cursorState = s.cursorState) (hmemory : w'.memory = w.memory)
    (hkeys : w'.keys = w.keys) : view s' w' = view s w := by
  unfold view
  rw [hcursor, hmemory, hkeys]

/-- A program that waits for nothing and writes nothing. -/
theorem still_run {α : Type} {m : Prog UefiWorld α} (hkeys : StillKeys m)
    (hmem : Prog.Sat (Untouched fw.bootServices) m) (w : UefiWorld) :
    ∃ a w', m w = (some a, w') ∧ w'.keys = w.keys ∧ w'.memory = w.memory ∧
      SameMap fw.bootServices w.memLib w'.memLib := by
  obtain ⟨a, w', hrun, hkeys⟩ := hkeys w
  have hsame : Untouched fw.bootServices w w' := hmem.run hrun
  exact ⟨a, w', hrun, hkeys, hsame.memory, hsame.lib⟩

/-- The lookup of the type changes nothing the viewer shows. -/
theorem updateMovedPage_view (fw : Firmware) (old : NxU64) (status : NxStatus)
    (s : PageMemPageState) (w : UefiWorld) :
    answer (updateMovedPage old status s (uefiAdapters fw)) w = some (view s w) := by
  obtain ⟨⟨status', s'⟩, w', hrun, hkeys, hmemory, -⟩ := still_run
    (still_updateMovedPage old status) ((uefiAdapters_untouched fw).updateMovedPage s old status) w
  rw [answer_of_some hrun, view_congr (updateMovedPage_sameView hrun).cursor hmemory hkeys]

/-- An arrow key. -/
theorem moveCursor_view (hw : WidthOk s.cursorState.width)
    (hoffset : s.cursorState.offset.toNat < 256) {delta : NxIntn} {bytes : ℤ}
    (hdelta : delta * s.cursorState.width = BitVec.ofInt 64 bytes) (hlow : -256 ≤ bytes)
    (hhigh : bytes ≤ 256) :
    answer (moveCursorByKey delta s (uefiAdapters fw)) w =
      some { view s w with
        offset := select (view s w).width ((view s w).offset + bytes) } := by
  obtain ⟨⟨status, s'⟩, w', hrun, hkeys, hmemory, -⟩ := still_run (still_moveCursor delta)
    ((uefiAdapters_untouched fw).silent.moveCursorByKey s delta) w
  have hcursor : s'.cursorState = pageCoreMoveCursor s.cursorState delta := by
    rw [(moveCursorByKey_eq hrun).2]
  have hselect := moveCursor_select hw hoffset hdelta hlow hhigh
  rw [answer_of_some hrun]
  unfold view
  rw [hcursor, hmemory, hkeys, hselect]
  rfl

/-! ## Prompts and lists -/

/-- What a prompt returns, and the keys it leaves. -/
def answered (m : Prog UefiWorld (NxBool × NxU64)) (w : UefiWorld) :
    Option (Option ℕ × List EfiInputKey) :=
  (m w).1.map fun r => (if r.1 then some r.2.toNat else none, (m w).2.keys)

/-- The loop of a prompt with a line in its buffer. -/
theorem tuiReadHexLoop_prompt {strHexToUint64 : List NxUiChar → NxU64}
    (hpos : Positional strHexToUint64) (hempty : strHexToUint64 [] = 0) {maxDigits : ℕ}
    (hmax : maxDigits ≤ 16) (keys : List EfiInputKey) :
    ∀ (buffer : List NxUiChar) (index : ℕ) (line : List NxUiChar) (w : UefiWorld),
      HoldsLine maxDigits buffer index line → w.keys = keys →
      answered (tuiReadHexLoop strHexToUint64 maxDigits keys.length buffer index) w =
        prompt maxDigits line keys := by
  induction keys with
  | nil =>
    intro buffer index line w _ _
    rfl
  | cons key keys ih =>
    intro buffer index line w h hkeys
    unfold prompt
    rw [List.length_cons]
    by_cases hesc : key.scanCode = scanEsc
    · rw [if_pos hesc]
      unfold answered
      rw [tuiReadHexLoop_cancel hesc hkeys]
      rfl
    rw [if_neg hesc]
    by_cases hcr : key.unicodeChar = charCarriageReturn
    · rw [if_pos hcr]
      have hvalue : (strHexToUint64 line).toNat = hexValue line := by
        by_cases hnil : line = []
        · rw [hnil, hempty]
          rfl
        · exact hpos line hnil (h.length_le.trans hmax) h.digits
      unfold answered
      rw [tuiReadHexLoop_confirm ⟨hesc, hcr⟩ hkeys h]
      show some (some (strHexToUint64 line).toNat, keys) = _
      rw [hvalue]
    · rw [if_neg hcr]
      obtain ⟨buffer', index', hedit, h'⟩ := editHexBuffer_eq key h { w with keys := keys }
      have hloop : answered (tuiReadHexLoop strHexToUint64 maxDigits (keys.length + 1) buffer index)
          w = answered (tuiReadHexLoop strHexToUint64 maxDigits keys.length buffer' index')
          { w with keys := keys, console := w.console ++ echoKey maxDigits line key } := by
        unfold answered
        rw [tuiReadHexLoop, Prog.bind_of_some (readKey_apply hkeys), if_neg hesc, if_neg hcr,
          Prog.bind_of_some hedit]
      rw [hloop]
      exact ih buffer' index' _ _ h' rfl

/-- **`TuiReadHex` is the prompt** of the viewer. -/
theorem tuiReadHex_prompt (hpos : Positional fw.strHexToUint64) (hempty : fw.strHexToUint64 [] = 0)
    (maxDigits : NxUintn) (hmax : maxDigits.toNat ≤ 16) (w : UefiWorld) :
    answered (tuiReadHex fw maxDigits) w = prompt maxDigits.toNat [] w.keys := by
  have hlimit : ¬ maxDigits.toNat ≥ hexBufferSize := by
    unfold hexBufferSize
    omega
  have hlt : maxDigits.toNat < hexBufferSize := Nat.lt_of_not_le hlimit
  rw [← tuiReadHexLoop_prompt hpos hempty hmax w.keys _ 0 [] w (holdsLine_empty hlt) rfl]
  unfold answered tuiReadHex
  simp only [if_neg hlimit]

/-- The keys after the list. -/
theorem afterList_eq (q : ℕ) (keys : List EfiInputKey) :
    afterList q keys = if (answersGiven q keys).length < keys.length then
      some (keys.drop ((answersGiven q keys).length + 1)) else none := by
  induction keys generalizing q with
  | nil =>
    unfold afterList
    rfl
  | cons key keys ih =>
    cases q with
    | zero => rfl
    | succ q =>
      unfold afterList answersGiven
      rw [List.take_succ_cons, List.takeWhile_cons]
      by_cases hesc : key.scanCode = scanEsc
      · simp [hesc]
      · rw [if_neg hesc, ih q]
        simp [hesc, answersGiven]

/-- A number typed in some digits. -/
theorem prompt_lt {maxDigits : ℕ} {rest : List EfiInputKey} {value : ℕ} (keys : List EfiInputKey) :
    ∀ line : List NxUiChar, line.length ≤ maxDigits → (∀ c ∈ line, isHexDigit c = true) →
      prompt maxDigits line keys = some (some value, rest) → value < 16 ^ maxDigits := by
  induction keys with
  | nil =>
    intro line _ _ h
    unfold prompt at h
    cases h
  | cons key keys ih =>
    intro line hlength hdigits h
    unfold prompt at h
    split_ifs at h with hesc hcr
    · cases h
    · cases h
      exact (hexValue_lt hdigits).trans_le (Nat.pow_le_pow_right (by decide) hlength)
    · refine ih _ (length_typeKey_le hlength key) ?_ h
      unfold typeKey
      split_ifs with hdigit hback
      · intro c hc
        rcases List.mem_append.1 hc with hc | hc
        · exact hdigits c hc
        · rw [List.mem_singleton.1 hc]
          exact hdigit.1
      · exact fun c hc => hdigits c (List.dropLast_subset line hc)
      · exact hdigits

/-! ## The commands -/

/-- A page state in which a run views the map. -/
structure Viewing (fw : Firmware) (map : PageMemAddressMap) (lib : MemLib) (s : PageMemPageState)
    (w : UefiWorld) : Prop where
  drawable : Drawable s
  mode : s.currentState = .viewing
  map : s.addressMap = map
  lib : SameMap fw.bootServices lib w.memLib

variable {map : PageMemAddressMap} {lib : MemLib}

/-- The page state on a page is the view turned to it. -/
theorem view_onPage (s : PageMemPageState) (w : UefiWorld) (p : NxU64) :
    view (onPage s p) w = (view s w).turn (some p.toNat) := rfl

/-- Page down. -/
theorem pageDown_view (h : Viewing fw map lib s w) (hal : MapAligned map) :
    view (pageMemActionPageDown s).2 w =
      (view s w).turn (above (viewed fw map lib).blocks (view s w).block) := by
  obtain rfl := h.map
  rcases pageDown_cases hal h.drawable.address with ⟨p, hp, hd⟩ | ⟨hnone, hd⟩
  · have habove : above (viewed fw s.addressMap lib).blocks (view s w).block = some p.toNat := by
      refine above_eq_some.2 ⟨⟨⟨p, hp.1, rfl⟩, hp.2.1⟩, ?_⟩
      rintro _ ⟨⟨q, hq, rfl⟩, hlt⟩
      exact hp.2.2 q hq hlt
    rw [hd, habove]
    exact view_onPage s w p
  · have habove : above (viewed fw s.addressMap lib).blocks (view s w).block = none := by
      refine above_eq_none.2 ?_
      rintro _ ⟨q, hq, rfl⟩
      exact hnone q hq
    rw [hd, habove]
    rfl

/-- Page up. -/
theorem pageUp_view (h : Viewing fw map lib s w) (hal : MapAligned map) :
    view (pageMemActionPageUp s).2 w =
      (view s w).turn (below (viewed fw map lib).blocks (view s w).block) := by
  obtain rfl := h.map
  rcases pageUp_cases hal h.drawable.address with ⟨p, hp, hu⟩ | ⟨hnone, hu⟩
  · have hbelow : below (viewed fw s.addressMap lib).blocks (view s w).block = some p.toNat := by
      refine below_eq_some.2 ⟨⟨⟨p, hp.1, rfl⟩, hp.2.1⟩, ?_⟩
      rintro _ ⟨⟨q, hq, rfl⟩, hlt⟩
      exact hp.2.2 q hq hlt
    rw [hu, hbelow]
    exact view_onPage s w p
  · have hbelow : below (viewed fw s.addressMap lib).blocks (view s w).block = none := by
      refine below_eq_none.2 ?_
      rintro _ ⟨q, hq, rfl⟩
      exact hnone q hq
    rw [hu, hbelow]
    rfl

/-- Goto. -/
theorem view_gotoState (s : PageMemPageState) (w : UefiWorld) (address : NxU64) :
    view (gotoState s address) w = (view s w).goTo (some address.toNat) := by
  have hbase : (pageCoreAlignToPage address pageSize).toNat = address.toNat / 256 * 256 := by
    have hmask : (pageCoreAlignToPage address pageSize).toNat =
        address.toNat - address.toNat % 256 := Align.toNat_and_not_mask pageSize_powTwo
    omega
  unfold view goTo gotoState pageCoreMarkForRedraw
  simp only [hbase, toNat_gotoOffset]

theorem goto_view (hpos : Positional fw.strHexToUint64) (hempty : fw.strHexToUint64 [] = 0)
    (s : PageMemPageState) (w : UefiWorld) :
    answer (pageMemActionGotoAddress s (uefiAdapters fw)) w =
      (prompt 16 [] w.keys).map fun r => { (view s w).goTo r.1 with keys := r.2 } := by
  have hprompt : answered (gotoPrompt (uefiAdapters fw).tui) w = prompt 16 [] w.keys := by
    have hshow : ∃ console, (uefiAdapters fw).tui.outputStringAt pageMemGotoPromptColumn
        pageMemHelpRow (wide "Goto address (hex):") w =
          (some (), { w with console := console }) := ⟨_, rfl⟩
    obtain ⟨console, hshow⟩ := hshow
    unfold answered gotoPrompt
    rw [Prog.bind_of_some hshow]
    exact tuiReadHex_prompt hpos hempty 16 (by decide) { w with console := console }
  have hsame := (uefiAdapters_untouched fw).silent.gotoPrompt w
  unfold answered at hprompt
  unfold pageMemActionGotoAddress
  rcases hrun : gotoPrompt (uefiAdapters fw).tui w with ⟨_ | ⟨committed, address⟩, w₁⟩
  · rw [hrun] at hprompt
    rw [answer_bind_none hrun, ← hprompt]
    rfl
  rw [hrun] at hprompt hsame
  have hmemory : w₁.memory = w.memory := hsame.memory
  have hclear : ∃ console, clearGotoPrompt (uefiAdapters fw).tui w₁ =
      (some (), { w₁ with console := console }) := ⟨_, rfl⟩
  obtain ⟨console, hclear⟩ := hclear
  rw [answer_bind hrun, ← hprompt]
  cases committed with
  | false =>
    show answer (clearGotoPrompt (uefiAdapters fw).tui >>= fun _ => pure (NxStatus.aborted, s)) w₁ =
      some { view s w with keys := w₁.keys }
    rw [answer_bind hclear]
    show some (view s { w₁ with console := console }) = _
    unfold view
    rw [hmemory]
  | true =>
    show answer (clearGotoPrompt (uefiAdapters fw).tui >>= fun _ =>
      pure (NxStatus.success, gotoState s address)) w₁ =
        some { (view s w).goTo (some address.toNat) with keys := w₁.keys }
    rw [answer_bind hclear]
    show some (view (gotoState s address) { w₁ with console := console }) = _
    rw [view_gotoState]
    unfold view goTo
    rw [hmemory]

/-- The view after the command of goto. -/
theorem gotoCommand_view (hpos : Positional fw.strHexToUint64) (hempty : fw.strHexToUint64 [] = 0)
    (s : PageMemPageState) (w : UefiWorld) :
    answer (pageMemActionGotoAddress (pageCoreTransitionState s .goto) (uefiAdapters fw) >>=
        fun r => updateMovedPage s.cursorState.address r.1 (pageCoreTransitionState r.2 .viewing)
          (uefiAdapters fw)) w =
      (prompt 16 [] w.keys).map fun r => { (view s w).goTo r.1 with keys := r.2 } := by
  have hgoto := goto_view hpos hempty (pageCoreTransitionState s .goto) w
  have hview : view (pageCoreTransitionState s .goto) w = view s w := rfl
  rw [hview] at hgoto
  rw [← hgoto]
  rcases hrun : pageMemActionGotoAddress (pageCoreTransitionState s .goto) (uefiAdapters fw) w
    with ⟨_ | ⟨status, s₁⟩, w₁⟩
  · rw [answer_bind_none hrun]
    unfold answer
    rw [hrun]
    rfl
  · rw [answer_bind hrun, answer_of_some hrun]
    exact updateMovedPage_view fw _ status (pageCoreTransitionState s₁ .viewing) w₁

/-- The address of the cursor, as a number. -/
theorem currentAddress_eq (s : PageMemPageState) (w : UefiWorld) :
    BitVec.ofNat 64 ((view s w).block + (view s w).offset) =
      pageCoreGetCurrentAddress s.cursorState := by
  show BitVec.ofNat 64 (s.cursorState.address.toNat + s.cursorState.offset.toNat) = _
  rw [BitVec.ofNat_add, BitVec.ofNat_toNat, BitVec.ofNat_toNat, BitVec.setWidth_eq,
    BitVec.setWidth_eq]
  rfl

theorem currentWidth_eq (s : PageMemPageState) (w : UefiWorld) :
    BitVec.ofNat 64 (view s w).width = s.cursorState.width := by
  show BitVec.ofNat 64 s.cursorState.width.toNat = _
  rw [BitVec.ofNat_toNat, BitVec.setWidth_eq]

/-- The cell is mapped, for the viewer and for PageMem. -/
theorem viewed_mapped (fw : Firmware) (map : PageMemAddressMap) (lib : MemLib)
    (s : PageMemPageState) (w : UefiWorld) :
    (viewed fw map lib).mapped ((view s w).block + (view s w).offset) (view s w).width ↔
      pageCoreIsRangeValid map (pageCoreGetCurrentAddress s.cursorState) s.cursorState.width =
        true := by
  rw [← currentAddress_eq s w, ← currentWidth_eq s w]
  rfl

/-- It may be written. -/
theorem viewed_writable (fw : Firmware) (map : PageMemAddressMap) (lib : MemLib)
    (s : PageMemPageState) (w : UefiWorld) :
    (viewed fw map lib).writable ((view s w).block + (view s w).offset) (view s w).width ↔
      WriteAllowed fw.bootServices lib (pageCoreGetCurrentAddress s.cursorState)
        s.cursorState.width := by
  rw [← currentAddress_eq s w, ← currentWidth_eq s w]
  rfl

/-- An edit gets to its prompt where the viewer does. -/
theorem editRejects_view (h : Viewing fw map lib s w) : editRejects s = none ↔
    (view s w).width ∣ (view s w).offset ∧
      (viewed fw map lib).mapped ((view s w).block + (view s w).offset) (view s w).width := by
  have hdvd : s.cursorState.offset % s.cursorState.width = 0 ↔
      (view s w).width ∣ (view s w).offset := by
    show _ ↔ s.cursorState.width.toNat ∣ s.cursorState.offset.toNat
    rw [Nat.dvd_iff_mod_eq_zero, ← BitVec.toNat_umod]
    constructor
    · intro h
      rw [h]
      rfl
    · exact fun h => BitVec.eq_of_toNat_eq h
  rw [editRejects_eq_none_iff, hdvd, viewed_mapped, h.map]
  constructor
  · exact fun h => h.2
  · exact fun h' => ⟨h.drawable.width, h'⟩

/-- The prompt of an edit. -/
theorem valuePrompt_view (hpos : Positional fw.strHexToUint64) (hempty : fw.strHexToUint64 [] = 0)
    (h : Viewing fw map lib s w) :
    answered (valuePrompt (uefiAdapters fw).tui s) w =
      prompt (2 * (view s w).width) [] w.keys := by
  have hle8 := h.drawable.width.toNat_le
  have hdigits : (s.cursorState.width * 2).toNat = 2 * (view s w).width := by
    show (s.cursorState.width * 2).toNat = 2 * s.cursorState.width.toNat
    rw [BitVec.toNat_mul, show (2 : NxUintn).toNat = 2 from rfl]
    omega
  have hclear : ∃ console, clearStatusLine (uefiAdapters fw).tui w =
      (some (), { w with console := console }) := clearStatusLine_uefi fw w
  obtain ⟨console, hclear⟩ := hclear
  have hshow : ∃ console', (uefiAdapters fw).tui.outputStringAt 0 pageMemStatusRow
      (wide "Edit value (hex): ") { w with console := console } =
        (some (), { w with console := console' }) := ⟨_, rfl⟩
  obtain ⟨console', hshow⟩ := hshow
  have hread := tuiReadHex_prompt hpos hempty (s.cursorState.width * 2)
    (by rw [hdigits]; exact Nat.mul_le_mul_left 2 hle8) { w with console := console' }
  rw [hdigits] at hread
  unfold answered valuePrompt
  rw [Prog.bind_of_some hclear, Prog.bind_of_some hshow]
  exact hread

/-- The write of an edit. -/
theorem memWrite_view (h : Viewing fw map lib s w) (value : NxU64) :
    ∃ status w', (uefiAdapters fw).memory.memWrite (pageCoreGetCurrentAddress s.cursorState)
        s.cursorState.width value w = (some status, w') ∧
      view s w' = write (viewed fw map lib) (view s w) (some value.toNat) := by
  have hallowed := (viewed_writable fw map lib s w).trans h.lib.writeAllowed.symm
  by_cases hw : WriteAllowed fw.bootServices w.memLib (pageCoreGetCurrentAddress s.cursorState)
      s.cursorState.width
  · obtain ⟨lib', hrun, -⟩ := uefiBridgeMemWrite_of_allowed value hw
    refine ⟨_, _, hrun, ?_⟩
    rw [write_of_writable (hallowed.2 hw), currentAddress_eq]
    rfl
  · obtain ⟨status, lib', hrun, -, -⟩ := uefiBridgeMemWrite_of_not_allowed value hw
    refine ⟨_, _, hrun, ?_⟩
    rw [write_of_not_writable fun hv => hw (hallowed.1 hv)]
    rfl

/-- The view after an edit. -/
theorem edit_view (hpos : Positional fw.strHexToUint64) (hempty : fw.strHexToUint64 [] = 0)
    (h : Viewing fw map lib s w) :
    (pageMemActionEditValue s (uefiAdapters fw) w).1.map
        (fun _ => view s (pageMemActionEditValue s (uefiAdapters fw) w).2) =
      Viewer.edit (viewed fw map lib) (view s w) := by
  have haccept := editRejects_view h
  rw [editValue_eq]
  unfold Viewer.edit
  rcases hreject : editRejects s with _ | message
  · rw [if_pos (haccept.1 hreject)]
    have hprompt := valuePrompt_view hpos hempty h
    have hkeys : (view s w).keys = w.keys := rfl
    rw [hkeys, ← hprompt]
    have hsame := (uefiAdapters_untouched fw).silent.valuePrompt s w
    unfold answered at hprompt ⊢
    dsimp only
    rcases hrun : valuePrompt (uefiAdapters fw).tui s w with ⟨_ | ⟨committed, value⟩, w₁⟩
    · rw [Prog.bind_of_none hrun]
      rfl
    rw [hrun] at hprompt hsame
    have hmemory : w₁.memory = w.memory := hsame.memory
    rw [Prog.bind_of_some hrun]
    unfold commitValue
    cases committed with
    | false =>
      show some (view s w₁) = some { view s w with keys := w₁.keys }
      unfold view
      rw [hmemory]
    | true =>
      have hfits : pageMemValueFitsWidth value s.cursorState.width = true := by
        have hlt := prompt_lt w.keys [] (Nat.zero_le _) (by simp) hprompt.symm
        rw [Nat.pow_mul] at hlt
        exact fitsWidth_of_lt h.drawable.width hlt
      have h₁ : Viewing fw map lib s w₁ := ⟨h.drawable, h.mode, h.map, h.lib.trans hsame.lib⟩
      obtain ⟨status, w₂, hwrite, hview⟩ := memWrite_view h₁ value
      simp only [not_true_eq_false, if_false, hfits, hwrite]
      show some (view s w₂) = some { write _ (view s w) (some value.toNat) with keys := w₁.keys }
      rw [hview]
      unfold write view
      rw [hmemory]
      split_ifs
      · rfl
      · rfl
  · rw [if_neg fun hv => by rw [haccept.2 hv] at hreject; cases hreject]
    rfl

/-- The view after the command of edit. -/
theorem editCommand_view (hpos : Positional fw.strHexToUint64) (hempty : fw.strHexToUint64 [] = 0)
    (h : Viewing fw map lib s w) :
    answer (pageMemActionEditValue (pageCoreTransitionState s .editing) (uefiAdapters fw) >>=
        fun status => pure (status, pageCoreMarkForRedraw
          (pageCoreTransitionState (pageCoreTransitionState s .editing) .viewing))) w =
      Viewer.edit (viewed fw map lib) (view s w) := by
  have hstate : pageMemActionEditValue (pageCoreTransitionState s .editing) (uefiAdapters fw) =
      pageMemActionEditValue s (uefiAdapters fw) := rfl
  rw [hstate, ← edit_view hpos hempty h]
  rcases hrun : pageMemActionEditValue s (uefiAdapters fw) w with ⟨_ | status, w₁⟩
  · rw [answer_bind_none hrun]
    rfl
  · rw [answer_bind hrun]
    rfl

/-- The view after the list of memory ranges. -/
theorem ranges_view (h : Viewing fw map lib s w) (hlib : lib.descriptors ≠ []) :
    answer ((uefiAdapters fw).memory.dumpValidRanges >>= fun _ =>
        pure (NxStatus.success, pageCoreMarkForRedraw s)) w =
      (afterList (viewed fw map lib).fullScreens w.keys).map
        fun keys => { view s w with keys := keys } := by
  have hcached : ¬ (w.memLib.gMemMap.isNone ∨ w.memLib.gDescSize = 0) := by
    intro hnone
    rw [← h.lib.descriptors] at hlib
    exact hlib (descriptors_eq_nil hnone)
  obtain ⟨w', hrun, hout⟩ := dumpMemoryRanges_output fw true w hcached
  have hscreens : (rangeLines fw.bootServices true w.memLib).length / linesPerScreen =
      (viewed fw map lib).fullScreens := by
    unfold rangeLines viewed listedDescriptors
    rw [List.length_map, h.lib.descriptors]
  rw [rangeAnswers, hscreens] at hrun hout
  have hdump : (uefiAdapters fw).memory.dumpValidRanges = dumpMemoryRanges fw true := rfl
  rw [afterList_eq, hdump]
  by_cases hlt : (answersGiven (viewed fw map lib).fullScreens w.keys).length < w.keys.length
  · rw [if_pos hlt] at hrun ⊢
    rw [answer_bind hrun]
    show some (view (pageCoreMarkForRedraw s) w') = some _
    unfold view
    rw [hout.keys, hout.memory]
    rfl
  · rw [if_neg hlt] at hrun ⊢
    rw [answer_bind_none hrun]
    rfl

/-! ## The keys -/

/-- **A command** does to the view what it does to the viewer. -/
theorem handleCommand_view (hpos : Positional fw.strHexToUint64) (hempty : fw.strHexToUint64 [] = 0)
    (hal : MapAligned map) (hlib : lib.descriptors ≠ []) (h : Viewing fw map lib s w)
    (unicodeChar : NxUiChar) :
    answer (handleCommand unicodeChar s (uefiAdapters fw)) w =
      obey (viewed fw map lib) (view s w) (command unicodeChar) := by
  unfold handleCommand
  rcases hcommand : command unicodeChar with _ | c
  · rfl
  cases c with
  | edit => exact editCommand_view hpos hempty h
  | goto => exact gotoCommand_view hpos hempty s w
  | pageDown =>
    have hdown := updateMovedPage_view fw s.cursorState.address .success
      (pageMemActionPageDown s).2 w
    rw [pageDown_view h hal] at hdown
    exact hdown
  | pageUp =>
    have hup := updateMovedPage_view fw s.cursorState.address .success (pageMemActionPageUp s).2 w
    rw [pageUp_view h hal] at hup
    exact hup
  | ranges => exact ranges_view h hlib
  | width width =>
    obtain ⟨hwidth, -⟩ := setCursorWidth_onCell s.cursorState (command_width hcommand)
    have hround := setCursorWidth_offset (command_width hcommand) h.drawable.offset
    show some (view { s with cursorState := pageCoreSetCursorWidth s.cursorState width } w) =
      some { view s w with
        width := width.toNat
        offset := s.cursorState.offset.toNat / width.toNat * width.toNat }
    rw [← hround]
    unfold view
    simp only [hwidth]
    rfl

/-- A key that is no arrow is a command. -/
theorem handleKeyPress_command {key : EfiInputKey} (hesc : key.scanCode ≠ scanEsc)
    (harrow : arrow (view s w).width key = none) :
    pageMemControllerHandleKeyPress (uiKey key) s (uefiAdapters fw) =
      handleCommand key.unicodeChar s (uefiAdapters fw) := by
  unfold pageMemControllerHandleKeyPress
  rw [if_neg (uiKey_not_esc hesc)]
  dsimp only
  rw [if_neg fun hne => hne (keyDelta_of_none harrow)]
  rfl

/-- **A key** does to the view what it does to the viewer. -/
theorem handleKeyPress_view (hpos : Positional fw.strHexToUint64) (hempty : fw.strHexToUint64 [] = 0)
    (hal : MapAligned map) (hlib : lib.descriptors ≠ []) (h : Viewing fw map lib s w)
    {key : EfiInputKey} (hesc : key.scanCode ≠ scanEsc) :
    answer (pageMemControllerHandleKeyPress (uiKey key) s (uefiAdapters fw)) w =
      step (viewed fw map lib) { view s w with keys := key :: w.keys } := by
  have hw := h.drawable.width
  rcases harrow : arrow (view s w).width key with _ | bytes
  · rw [handleKeyPress_command hesc harrow]
    refine (handleCommand_view hpos hempty hal hlib h key.unicodeChar).trans ?_
    exact (@step_command _ { view s w with keys := key :: w.keys } _ _ rfl hesc harrow).symm
  · obtain ⟨hdelta, hbytes, hlow, hhigh⟩ := keyDelta_of_arrow hw harrow
    unfold pageMemControllerHandleKeyPress
    rw [if_neg (uiKey_not_esc hesc)]
    dsimp only
    rw [if_pos hdelta]
    refine (moveCursor_view hw h.drawable.offset hbytes hlow hhigh).trans ?_
    exact (@step_arrow _ { view s w with keys := key :: w.keys } _ _ _ rfl hesc harrow).symm

/-! ## The run -/

/-- The redraw. -/
theorem redrawIfNeeded_view (h : Viewing fw map lib s w) :
    ∃ s' w', redrawIfNeeded (uefiAdapters fw) s w = (some s', w') ∧ Viewing fw map lib s' w' ∧
      view s' w' = view s w := by
  obtain ⟨s', w', hrun, -, hkeys⟩ := redrawIfNeeded_still s h.drawable.width w
  have hsame : Untouched fw.bootServices w w' :=
    ((uefiAdapters_untouched fw).drawn.redrawIfNeeded s).run hrun
  refine ⟨s', w', hrun, ?_, ?_⟩
  · rw [redrawIfNeeded_eq hrun]
    exact ⟨⟨h.drawable.width, h.drawable.offset, h.drawable.address⟩, h.mode, h.map,
      h.lib.trans hsame.lib⟩
  · rw [redrawIfNeeded_eq hrun]
    exact view_congr rfl hsame.memory hkeys

theorem quiet_ne_init (c : AdapterCall) (h : c.Quiet) : c ≠ .init := by
  rintro rfl
  exact h

/-- A key keeps a run viewing. -/
theorem serveKey_viewing (h : Viewing fw map lib s w)
    (hserve : serveKey (uefiAdapters fw) s w = (some (.inl s'), w')) :
    Viewing fw map lib s' w' := by
  obtain ⟨hdrawable, hmode⟩ := serveKey_drawable h.drawable h.mode hserve
  have hsame : SameMaps fw.bootServices w w' :=
    ((uefiAdapters_sameMaps fw).serveKey s quiet_ne_init (by simp) (by simp)).run hserve
  obtain ⟨_, _, _, _, -, hpress, -⟩ := serveKey_eq_inl hserve
  exact ⟨hdrawable, hmode, (handleKeyPress_steps hpress).1.trans h.map, h.lib.trans hsame.lib⟩

theorem Viewing.withKeys (h : Viewing fw map lib s w) (keys : List EfiInputKey) :
    Viewing fw map lib s { w with keys := keys } := ⟨h.drawable, h.mode, h.map, h.lib⟩

/-- A key that has been read was the first of the keys. -/
theorem readKey_uefi_inv {key' : NxUiKey}
    (h : (uefiAdapters fw).tui.readKey w = (some key', w')) :
    ∃ key keys, w.keys = key :: keys ∧ key' = uiKey key ∧ w' = { w with keys := keys } := by
  rcases hkeys : w.keys with _ | ⟨key, keys⟩
  · have hnone : tuiReadKey w = (none, w) := by
      unfold tuiReadKey
      rw [hkeys]
    have hread : (uefiAdapters fw).tui.readKey w = (none, w) := Prog.bind_of_none hnone
    rw [hread] at h
    cases h
  · rw [readKey_uefi hkeys] at h
    cases h
    exact ⟨key, keys, rfl, rfl, rfl⟩

/-- A key that is not ESC and has been handled has been served. -/
theorem serveKey_returns {key' : NxUiKey} {status : NxStatus} {w₁ : UefiWorld}
    (hread : (uefiAdapters fw).tui.readKey w = (some key', w₁))
    (hpress : pageMemControllerHandleKeyPress key' s (uefiAdapters fw) w₁ = (some (status, s'), w'))
    (hesc : key'.scanCode ≠ nxUiScanEsc) :
    ∃ w₂, serveKey (uefiAdapters fw) s w = (some (.inl s'), w₂) := by
  unfold serveKey
  rw [Prog.bind_of_some hread, Prog.bind_of_some hpress]
  dsimp only
  rw [if_neg fun h => hesc h.2]
  split_ifs
  · exact ⟨_, rfl⟩
  · exact ⟨w', rfl⟩

/-- A key that has been served was handled with the view the loop goes on with. -/
theorem answer_of_serveKey (h : serveKey (uefiAdapters fw) s w = (some (.inl s'), w')) :
    ∃ key keys, w.keys = key :: keys ∧ key.scanCode ≠ scanEsc ∧
      answer (pageMemControllerHandleKeyPress (uiKey key) s (uefiAdapters fw))
        { w with keys := keys } = some (view s' w') := by
  obtain ⟨key', w₁, status, w₂, hread, hpress, hreport⟩ := serveKey_eq_inl h
  obtain ⟨key, keys, hkeys, rfl, rfl⟩ := readKey_uefi_inv hread
  refine ⟨key, keys, hkeys, ?_, ?_⟩
  · intro hesc
    rw [serveKey_eq_inr.2 ⟨rfl, _, hread, (scan_eq 0x17 (by omega)).2 hesc⟩] at h
    cases h
  · have hsame : view s' w' = view s' w₂ := by
      rcases hreport with ⟨-, hreport⟩ | ⟨-, rfl⟩
      · cases hreport
        rfl
      · rfl
    rw [hsame]
    exact answer_of_some hpress

/-- A key that is not ESC is served if it is handled. -/
theorem serveKey_of_answer {key : EfiInputKey} {keys : List EfiInputKey} {v : Viewer}
    (hkeys : w.keys = key :: keys) (hesc : key.scanCode ≠ scanEsc)
    (h : answer (pageMemControllerHandleKeyPress (uiKey key) s (uefiAdapters fw))
      { w with keys := keys } = some v) :
    ∃ s' w', serveKey (uefiAdapters fw) s w = (some (.inl s'), w') ∧ view s' w' = v := by
  have hread : (uefiAdapters fw).tui.readKey w = (some (uiKey key), { w with keys := keys }) :=
    readKey_uefi hkeys
  rcases hpress : pageMemControllerHandleKeyPress (uiKey key) s (uefiAdapters fw)
    { w with keys := keys } with ⟨_ | ⟨status, s'⟩, w₁⟩
  · unfold answer at h
    rw [hpress] at h
    cases h
  · obtain ⟨w₂, hserve⟩ := serveKey_returns hread hpress (uiKey_not_esc hesc)
    obtain ⟨key', keys', hkeys', -, hview⟩ := answer_of_serveKey hserve
    rw [hkeys] at hkeys'
    cases hkeys'
    rw [h] at hview
    exact ⟨s', w₂, hserve, (Option.some.inj hview).symm⟩

/-- **A turn of the loop** is a step of the viewer. -/
theorem controller_refines (hpos : Positional fw.strHexToUint64) (hempty : fw.strHexToUint64 [] = 0)
    (hal : MapAligned map) (hlib : lib.descriptors ≠ []) :
    Refine.Refines (redrawIfNeeded (uefiAdapters fw)) (serveKey (uefiAdapters fw))
      (Viewing fw map lib) view (step (viewed fw map lib)) := by
  have hstep : ∀ s w key keys, Viewing fw map lib s w → w.keys = key :: keys →
      key.scanCode ≠ scanEsc → answer (pageMemControllerHandleKeyPress (uiKey key) s
        (uefiAdapters fw)) { w with keys := keys } = step (viewed fw map lib) (view s w) := by
    intro s w key keys h hkeys hesc
    rw [handleKeyPress_view hpos hempty hal hlib (h.withKeys keys) hesc]
    unfold view
    rw [hkeys]
  refine ⟨fun s w h => redrawIfNeeded_view h, fun s w s' w' h hserve => ?_, fun s w h hstop => ?_⟩
  · obtain ⟨key, keys, hkeys, hesc, hview⟩ := answer_of_serveKey hserve
    rw [hstep s w key keys h hkeys hesc] at hview
    exact ⟨serveKey_viewing h hserve, hview⟩
  · rcases hkeys : w.keys with _ | ⟨key, keys⟩
    · unfold step view
      rw [hkeys]
    by_cases hesc : key.scanCode = scanEsc
    · unfold step view
      rw [hkeys]
      exact if_pos hesc
    rcases hview : step (viewed fw map lib) (view s w) with _ | v
    · rfl
    · rw [← hstep s w key keys h hkeys hesc] at hview
      obtain ⟨s', w', hserve, -⟩ := serveKey_of_answer hkeys hesc hview
      exact absurd hserve (hstop s' w')

/-- An initialization without a memory map fails. -/
theorem init_map_ne_nil {status : NxStatus}
    (h : pageMemControllerInit s (uefiAdapters fw) w = (some (status, s'), w'))
    (hok : nxUiError status = false) : (memAdapterInit fw w).2.memLib.descriptors ≠ [] := by
  intro hnil
  obtain ⟨w₁, descriptors, w₂, hinit, hdescs, -⟩ := pageMemControllerInit_success h hok
  have hmem : memAdapterInit fw w = (some .success, w₁) := hinit
  have hcopied := memAdapterInit_copied (congrArg Prod.fst hmem)
  rw [Copied, hnil] at hcopied
  rw [hmem] at hcopied
  have hget : memAdapterGetMemoryMapDescriptors w₁ = (some (some (coreDescriptors w₁)), w₁) := rfl
  rw [hcopied] at hget
  obtain ⟨status₁, w₃, hinit', h⟩ := Prog.bind_eq_some.1 h
  rw [hinit] at hinit'
  cases hinit'
  obtain ⟨descriptors', w₄, hdescs', h⟩ := Prog.bind_eq_some.1 h
  have heq : (some descriptors', w₄) = (some (some []), w₁) := hdescs'.symm.trans hget
  cases heq
  obtain ⟨h, -⟩ := Prog.pure_eq_some.1 h
  cases h
  cases hok

/-- Whenever a key is awaited, there is a memory map, and the run views it. -/
theorem visited_viewing {n : ℕ} {s₀ : PageMemPageState} {w₀ : UefiWorld}
    (h : runVisits (uefiAdapters fw) n s₀ w₀ = some (s, w)) :
    w.memLib.descriptors ≠ [] ∧ Viewing fw s.addressMap w.memLib s w := by
  obtain ⟨hdrawable, hmode⟩ := runVisits_drawable (uefiAdapters fw) s₀ w₀ n s w h
  obtain ⟨w₁, _, _, hinit, -, -, hsame⟩ := runVisits_frame (uefiAdapters_sameMaps fw) h
  obtain ⟨status, s₁, w₂, hrun, hok, -⟩ := runVisits_eq_some.1 h
  have hmap := init_map_ne_nil hrun hok
  have hmem : memAdapterInit fw w₀ = (some .success, w₁) := hinit
  rw [hmem, ← hsame.lib.descriptors] at hmap
  exact ⟨hmap, hdrawable, hmode, rfl, .refl _⟩

/-- The keys and physical memory after the initialization are those before it. -/
theorem init_view {status : NxStatus}
    (h : pageMemControllerInit s (uefiAdapters fw) w = (some (status, s'), w')) :
    w'.keys = w.keys ∧ w'.memory = w.memory := by
  have hquiet : ∀ c, AdapterCall.Quiet c → ∀ a width value, c ≠ .memWrite a width value := by
    rintro c hc a width value rfl
    exact hc
  have hmemory : SameMemory w w' :=
    ((uefiAdapters_sameMemory fw).pageMemControllerInit hquiet (by simp) s).run h
  obtain ⟨r, w₁, hrun, hkeys⟩ := still_init fw s w
  rw [h] at hrun
  cases hrun
  exact ⟨hkeys, hmemory⟩

/-- The state in which a run comes to its first key. -/
theorem first_view {s₀ s₁ : PageMemPageState} {w₀ w₁ : UefiWorld} {status : NxStatus}
    (hinit : pageMemControllerInit s₀ (uefiAdapters fw) w₀ = (some (status, s₁), w₁))
    (hok : nxUiError status = false) : view s₁ w₁ =
      ⟨(pageCoreGetFirstValidAddress s₁.addressMap).toNat / 256 * 256, 0, 1, w₀.memory, w₀.keys⟩ := by
  obtain ⟨hkeys, hmemory⟩ := init_view hinit
  obtain ⟨-, descriptors, -, -, -, hdescs, hcursor, -⟩ := pageMemControllerInit_success hinit hok
  have hmask : (pageCoreAlignToPage (pageCoreGetFirstValidAddress s₁.addressMap) pageSize).toNat =
      (pageCoreGetFirstValidAddress s₁.addressMap).toNat -
        (pageCoreGetFirstValidAddress s₁.addressMap).toNat % 256 :=
    Align.toNat_and_not_mask pageSize_powTwo
  have hround : (pageCoreAlignToPage (pageCoreGetFirstValidAddress s₁.addressMap) pageSize).toNat =
      (pageCoreGetFirstValidAddress s₁.addressMap).toNat / 256 * 256 := by omega
  rw [← hround]
  unfold view
  rw [hcursor, hkeys, hmemory, hdescs]
  rfl

/-- The initialization before the first key, and the view it leaves. -/
theorem runVisits_start {s₀ : PageMemPageState} {w₀ : UefiWorld}
    (hfirst : runVisits (uefiAdapters fw) 0 s₀ w₀ = some (s, w)) :
    ∃ status s₁ w₁, pageMemControllerInit s₀ (uefiAdapters fw) w₀ = (some (status, s₁), w₁) ∧
      nxUiError status = false ∧ Viewing fw s.addressMap w.memLib s₁ w₁ ∧
      view s₁ w₁ = view s w := by
  obtain ⟨status, s₁, w₁, hinit, hok, hredraw⟩ := runVisits_zero.1 hfirst
  obtain ⟨hdrawable, hmode⟩ := pageMemControllerInit_drawable hinit hok
  obtain ⟨s', w', hrun, hviewing, hview⟩ := redrawIfNeeded_view
    (⟨hdrawable, hmode, rfl, .refl _⟩ : Viewing fw s₁.addressMap w₁.memLib s₁ w₁)
  rw [hredraw] at hrun
  cases hrun
  exact ⟨status, s₁, w₁, hinit, hok, ⟨hdrawable, hmode, hviewing.map.symm,
    hviewing.lib.descriptors.symm, hviewing.lib.protocol.symm⟩, hview.symm⟩

/-- The state at the first key. -/
theorem runVisits_first {s₀ : PageMemPageState} {w₀ : UefiWorld}
    (hfirst : runVisits (uefiAdapters fw) 0 s₀ w₀ = some (s, w)) : view s w =
      ⟨(pageCoreGetFirstValidAddress s.addressMap).toNat / 256 * 256, 0, 1, w₀.memory, w₀.keys⟩ := by
  obtain ⟨status, s₁, w₁, hinit, hok, hviewing, hview⟩ := runVisits_start hfirst
  rw [← hview, ← hviewing.map]
  exact first_view hinit hok

/-- From the first key on, a run is that of the viewer. -/
theorem runVisits_view (hpos : Positional fw.strHexToUint64) (hempty : fw.strHexToUint64 [] = 0)
    {s₀ : PageMemPageState} {w₀ : UefiWorld}
    (hfirst : runVisits (uefiAdapters fw) 0 s₀ w₀ = some (s, w)) (hal : MapAligned s.addressMap)
    (n : ℕ) : (runVisits (uefiAdapters fw) n s₀ w₀).map (fun p => view p.1 p.2) =
      Refine.run (step (viewed fw s.addressMap w.memLib)) n (view s w) := by
  obtain ⟨hlib, -⟩ := visited_viewing hfirst
  obtain ⟨status, s₁, w₁, hinit, hok, hviewing, hview⟩ := runVisits_start hfirst
  have hvisits : runVisits (uefiAdapters fw) n s₀ w₀ =
      Prog.visits (redrawIfNeeded (uefiAdapters fw)) (serveKey (uefiAdapters fw)) n s₁ w₁ := by
    unfold runVisits
    rw [Prog.done_eq_some.2 hinit]
    show (if nxUiError status = true then none else _) = _
    rw [hok]
    rfl
  rw [hvisits, ← hview]
  exact (controller_refines hpos hempty hal hlib).visits n s₁ w₁ hviewing

/-- **PageMem is the viewer.**  From the first key on, if the descriptors start at a
    page boundary, a run shows at every key the state in which the viewer awaits
    it: the block, the selected cell, physical memory and the keys still to come.
    It starts on the block of the first valid address, and ends where the viewer
    stops. -/
theorem pageMem_refines (fw : Firmware) (hpos : Positional fw.strHexToUint64)
    (hempty : fw.strHexToUint64 [] = 0) (s₀ s : PageMemPageState) (w₀ w : UefiWorld)
    (hfirst : runVisits (uefiAdapters fw) 0 s₀ w₀ = some (s, w)) (hal : MapAligned s.addressMap) :
    view s w =
        ⟨(pageCoreGetFirstValidAddress s.addressMap).toNat / 256 * 256, 0, 1, w₀.memory, w₀.keys⟩ ∧
      ∀ n, (runVisits (uefiAdapters fw) n s₀ w₀).map (fun p => view p.1 p.2) =
        Refine.run (step (viewed fw s.addressMap w.memLib)) n (view s w) :=
  ⟨runVisits_first hfirst, runVisits_view hpos hempty hfirst hal⟩

/-- Right, page down, and an edit with a digit. -/
def viewerKeys : List EfiInputKey :=
  [⟨0x0003, 0⟩, ⟨0, L 'n'⟩, ⟨0, L 'e'⟩, ⟨0, L '5'⟩, ⟨0, charCarriageReturn⟩]

/-- The run with these keys comes to its first key on the page at `0x1000`, which
    may be read and written. -/
theorem viewerKeys_first :
    ∃ s w, runVisits (uefiAdapters codecFirmware) 0 enterState
        (.boot (fun _ => 0xAA) viewerKeys) = some (s, w) ∧
      s.addressMap.descriptors = some [⟨.conventional, 0x1000, 1, 0, 7⟩] ∧
      MapAligned s.addressMap ∧ view s w = ⟨0x1000, 0, 1, fun _ => 0xAA, viewerKeys⟩ ∧
      ReadAllowed codecFirmware.bootServices w.memLib 0x1000 1 ∧
      WriteAllowed codecFirmware.bootServices w.memLib 0x1000 1 := by
  have hinit : (pageMemControllerInit enterState (uefiAdapters codecFirmware)
      (.boot (fun _ => 0xAA) viewerKeys)).1.map (fun r => (r.1, r.2.addressMap.descriptors)) =
        some (.success, some [⟨.conventional, 0x1000, 1, 0, 7⟩]) := by decide +kernel
  have haccess : ∀ w₁, w₁ = (pageMemControllerInit enterState (uefiAdapters codecFirmware)
      (.boot (fun _ => 0xAA) viewerKeys)).2 →
      (memRead codecFirmware.bootServices w₁.memLib (fun _ => 0xAA) 0x1000 1 (some 0)).1 =
        efiSuccess ∧
      (memWrite codecFirmware.bootServices w₁.memLib (fun _ => 0xAA) 0x1000 1 0).1 =
        efiSuccess := by
    rintro _ rfl
    decide +kernel
  rcases hrun : pageMemControllerInit enterState (uefiAdapters codecFirmware)
    (.boot (fun _ => 0xAA) viewerKeys) with ⟨_ | ⟨status, s₁⟩, w₁⟩
  · rw [hrun] at hinit
    cases hinit
  rw [hrun] at hinit haccess
  obtain ⟨hread, hwrite⟩ := haccess w₁ rfl
  have hdescs : s₁.addressMap.descriptors = some [⟨.conventional, 0x1000, 1, 0, 7⟩] :=
    congrArg Prod.snd (Option.some.inj hinit)
  obtain rfl : status = .success := congrArg Prod.fst (Option.some.inj hinit)
  obtain ⟨hdrawable, hmode⟩ := pageMemControllerInit_drawable hrun rfl
  obtain ⟨s, w, hredraw, hviewing, -⟩ := redrawIfNeeded_view
    (⟨hdrawable, hmode, rfl, .refl _⟩ : Viewing codecFirmware s₁.addressMap w₁.memLib s₁ w₁)
  have hfirst := runVisits_zero.2 ⟨_, s₁, w₁, hrun, rfl, hredraw⟩
  rw [← hviewing.map] at hdescs
  refine ⟨s, w, hfirst, hdescs, fun ds hds desc hdesc => ?_, ?_,
    hviewing.lib.readAllowed.2 (memRead_success_iff.1 hread),
    hviewing.lib.writeAllowed.2 (memWrite_success_iff.1 hwrite)⟩
  · rw [hdescs] at hds
    cases hds
    rw [List.mem_singleton.1 hdesc]
    exact ⟨1, rfl⟩
  · rw [runVisits_first hfirst]
    unfold pageCoreGetFirstValidAddress
    rw [hdescs]
    rfl

theorem pageMem_refines_edit :
    ∃ s w, runVisits (uefiAdapters codecFirmware) 0 enterState
        (.boot (fun _ => 0xAA) viewerKeys) = some (s, w) ∧
      view s w = ⟨0x1000, 0, 1, fun _ => 0xAA, viewerKeys⟩ ∧
      ∀ n, (runVisits (uefiAdapters codecFirmware) n enterState
          (.boot (fun _ => 0xAA) viewerKeys)).map (fun p => view p.1 p.2) =
        Refine.run (step (viewed codecFirmware s.addressMap w.memLib)) n (view s w) := by
  obtain ⟨s, w, hfirst, -, hal, hview, -⟩ := viewerKeys_first
  obtain ⟨-, hrun⟩ := pageMem_refines codecFirmware codecFirmware_positional rfl enterState s
    (.boot (fun _ => 0xAA) viewerKeys) w hfirst hal
  exact ⟨s, w, hfirst, hview, hrun⟩

end

end UefiNexus
