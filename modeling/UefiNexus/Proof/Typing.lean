/-
  What is shown and what is typed.

  * `key_visit`: a key that is served takes the view from one key to the next, and
    the screen shows the cursor there;
  * `prompt_types`: a text of digits at a prompt is the number it stands for;
  * `address_typed_back`: so the address on the information row is a bookmark;
  * `typed_is_shown`: and the digits typed at the edit prompt are what the selected
    cell shows next.
-/
import UefiNexus.Proof.Highlight
import UefiNexus.Proof.Labels
import UefiNexus.Proof.Viewer

namespace UefiNexus

open Grid Viewer

/-! ## Digits -/

/-- The digits of an address stand for it. -/
theorem hexValue_hexDigits (value : NxU64) : ∀ n,
    hexValue ((hexDigits value n).map (BitVec.setWidth 16)) = value.toNat % 16 ^ n
  | 0 => by
    rw [Nat.pow_zero, Nat.mod_one]
    rfl
  | n + 1 => by
    have ih := hexValue_hexDigits value n
    have hmask : (0xF : NxU64).toNat = 2 ^ 4 - 1 := rfl
    have hpow : 2 ^ (n * 4) = 16 ^ n := by
      rw [Nat.mul_comm, Nat.pow_mul]
    have hdigit : ((value >>> (n * 4)) &&& 0xF).toNat = value.toNat / 16 ^ n % 16 := by
      rw [BitVec.toNat_and, BitVec.toNat_ushiftRight, hmask, Nat.and_two_pow_sub_one_eq_mod,
        Nat.shiftRight_eq_div_pow, hpow]
    have hlt : value.toNat / 16 ^ n % 16 < 16 := Nat.mod_lt _ (by decide)
    have hlength : (((hexDigits value n).map (BitVec.setWidth 16)).map digitValue).reverse.length =
        n := by
      rw [List.length_reverse, List.length_map, List.length_map, length_hexDigits]
    unfold hexValue at ih ⊢
    unfold hexDigits
    rw [hdigit, List.map_cons, List.map_cons, List.reverse_cons, Nat.ofDigits_append, ih, hlength,
      Nat.ofDigits_singleton]
    show _ + 16 ^ n * digitValue (upperDigit _) = _
    rw [(upperDigit_spec hlt).2, Nat.pow_succ, Nat.mod_mul]

theorem hexDigits_isHexDigit (value : NxU64) :
    ∀ n, ∀ c ∈ (hexDigits value n).map (BitVec.setWidth 16), isHexDigit c = true
  | 0 => fun _ hc => absurd hc List.not_mem_nil
  | n + 1 => by
    have hlt : ((value >>> (n * 4)) &&& 0xF).toNat < 16 :=
      Nat.lt_of_le_of_lt Nat.and_le_right (by decide)
    exact List.forall_mem_cons.2 ⟨(upperDigit_spec hlt).1, hexDigits_isHexDigit value n⟩

/-- A text of digits at the prompt is the number it stands for. -/
theorem prompt_types (maxDigits : ℕ) {enter : EfiInputKey} (henter : Confirms enter)
    (rest keys : List EfiInputKey) :
    ∀ line text : List NxUiChar, Types keys text → (∀ c ∈ text, isHexDigit c = true) →
      line.length + text.length ≤ maxDigits →
      prompt maxDigits line (keys ++ enter :: rest) = some (some (hexValue (line ++ text)), rest) := by
  induction keys with
  | nil =>
    intro line text htypes _ _
    obtain rfl : text = [] := htypes.chars.symm
    unfold prompt
    rw [List.nil_append]
    dsimp only
    rw [if_neg henter.1, if_pos henter.2, List.append_nil]
  | cons key keys ih =>
    intro line text htypes hdigits hlength
    obtain rfl : text = key.unicodeChar :: keys.map EfiInputKey.unicodeChar := htypes.chars.symm
    obtain ⟨hdigit, hdigits⟩ := List.forall_mem_cons.1 hdigits
    obtain ⟨hesc, hnoEsc⟩ := List.forall_mem_cons.1 htypes.noEsc
    rw [List.length_cons] at hlength
    have hcr : key.unicodeChar ≠ charCarriageReturn := by
      intro hcr
      rw [hcr] at hdigit
      exact absurd hdigit (by decide)
    have hroom : isHexDigit key.unicodeChar = true ∧ line.length < maxDigits :=
      ⟨hdigit, by omega⟩
    unfold prompt
    rw [List.cons_append]
    dsimp only
    rw [if_neg hesc, if_neg hcr, typeKey, if_pos hroom,
      ih (line ++ [key.unicodeChar]) _ ⟨hnoEsc, rfl⟩ hdigits
        (by rw [List.length_append, List.length_singleton]; omega),
      List.append_assoc, List.singleton_append]

/-- The digits of an address. -/
def addressDigits (address : NxU64) : List NxUiChar := (hexDigits address 16).map (BitVec.setWidth 16)

theorem hexValue_lt_width {width : NxUintn} {text : List NxUiChar}
    (hlength : text.length ≤ width.toNat * 2) (hdigits : ∀ c ∈ text, isHexDigit c = true) :
    hexValue text < 256 ^ width.toNat := by
  have hpow : 256 ^ width.toNat = 16 ^ (width.toNat * 2) := by
    rw [Nat.mul_comm, Nat.pow_mul]
  rw [hpow]
  exact (hexValue_lt hdigits).trans_le (Nat.pow_le_pow_right (by decide) hlength)

/-- The digits of the bytes of a number that is typed, in upper case and filled up
    with zeros. -/
theorem byteText_padded {width : NxUintn} {text : List NxUiChar}
    (hlength : text.length ≤ width.toNat * 2) (hdigits : ∀ c ∈ text, isHexDigit c = true) :
    byteText (ByteMem.byteOf (hexValue text)) width.toNat = padded (width.toNat * 2) text := by
  obtain ⟨hupper, hpadded, hsame⟩ := padded_spec hlength hdigits
  refine upperDigits_unique (byteText_upper _ _) hupper ?_ ?_
  · rw [length_byteText, hpadded]
  · rw [hsame, hexValue_byteText, ByteMem.leValue_byteOf,
      Nat.mod_eq_of_lt (hexValue_lt_width hlength hdigits)]

/-! ## A key -/

section
variable {fw : Firmware} {s s' : PageMemPageState} {w w' : UefiWorld} {map : PageMemAddressMap}
  {lib : MemLib} {c : Console}

/-- What holds of the state in which a run awaits a key. -/
structure Awaits (c : Console) (fw : Firmware) (map : PageMemAddressMap) (lib : MemLib)
    (s : PageMemPageState) (w : UefiWorld) : Prop extends Viewing fw map lib s w where
  clean : s.needsRedraw = false
  pointed : Pointed (c.terminal fw) s w

theorem visited_awaits (c : Console) {n : ℕ} {s₀ : PageMemPageState} {w₀ : UefiWorld}
    (h : runVisits (uefiAdapters fw) n s₀ w₀ = some (s, w)) :
    Awaits c fw s.addressMap w.memLib s w where
  toViewing := (visited_viewing h).2
  clean := by
    cases n with
    | zero =>
      obtain ⟨_, _, _, -, -, htop⟩ := runVisits_zero.1 h
      rw [redrawIfNeeded_eq htop]
    | succ n =>
      obtain ⟨_, _, _, _, -, -, htop⟩ := runVisits_succ.1 h
      rw [redrawIfNeeded_eq htop]
  pointed := runVisits_pointed (c.uefi_drives fw) h

/-- **A command** takes the view, and the screen, to the next key. -/
theorem command_visit (h : Awaits c fw map lib s w) {key : EfiInputKey} {keys : List EfiInputKey}
    {v : Viewer} (hscan : key.scanCode = 0)
    (hanswer : answer (handleCommand key.unicodeChar s (uefiAdapters fw)) { w with keys := keys } =
      some v) :
    ∃ s' w', Prog.visits (redrawIfNeeded (uefiAdapters fw)) (serveKey (uefiAdapters fw)) 1 s
        { w with keys := key :: keys } = some (s', w') ∧
      view s' w' = v ∧ Viewing fw map lib s' w' ∧ Pointed (c.terminal fw) s' w' := by
  have hesc : key.scanCode ≠ scanEsc := by
    rw [hscan]
    decide
  have harrow : arrow (view s { w with keys := keys }).width key = none := by
    unfold arrow
    rw [hscan]
    rfl
  have htop : redrawIfNeeded (uefiAdapters fw) s { w with keys := key :: keys } =
      (some s, { w with keys := key :: keys }) := by
    unfold redrawIfNeeded
    rw [h.clean]
    rfl
  rw [← handleKeyPress_command hesc harrow] at hanswer
  obtain ⟨s₁, w₁, hserve, hview₁⟩ :=
    @serveKey_of_answer _ _ { w with keys := key :: keys } _ _ _ rfl hesc hanswer
  obtain ⟨s₂, w₂, htop₂, hviewing, hview₂⟩ :=
    redrawIfNeeded_view (serveKey_viewing (h.withKeys (key :: keys)) hserve)
  have hpointed : Pointed (c.terminal fw) s { w with keys := key :: keys } :=
    (pointed_kept (c.uefi_drives fw)).congr (w := w) rfl rfl h.pointed
  refine ⟨s₂, w₂, Prog.visits_shift.2 ⟨_, _, s₁, w₁, htop, hserve, Prog.visits_zero.2 htop₂⟩,
    hview₂.trans hview₁, hviewing, ?_⟩
  exact (pointed_kept (c.uefi_drives fw)).of_serveKey (c.uefi_drives fw) h.drawable.width
    h.drawable.offset hpointed hserve htop₂

/-- A number at the goto prompt. -/
theorem goto_visit (hpos : Positional fw.strHexToUint64) (hempty : fw.strHexToUint64 [] = 0)
    (h : Awaits c fw map lib s w) {key : EfiInputKey} {keys rest : List EfiInputKey}
    {address : ℕ} (hscan : key.scanCode = 0) (hcommand : command key.unicodeChar = some .goto)
    (hprompt : prompt 16 [] keys = some (some address, rest)) :
    ∃ s' w', Prog.visits (redrawIfNeeded (uefiAdapters fw)) (serveKey (uefiAdapters fw)) 1 s
        { w with keys := key :: keys } = some (s', w') ∧
      view s' w' = { (view s w).goTo (some address) with keys := rest } ∧
      Viewing fw map lib s' w' ∧ Pointed (c.terminal fw) s' w' := by
  refine command_visit h hscan ?_
  unfold handleCommand
  rw [hcommand]
  refine (gotoCommand_view hpos hempty s { w with keys := keys }).trans ?_
  show (prompt 16 [] keys).map _ = _
  rw [hprompt]
  rfl

/-- A number at the edit prompt of a cell. -/
theorem edit_visit (hpos : Positional fw.strHexToUint64) (hempty : fw.strHexToUint64 [] = 0)
    (h : Awaits c fw map lib s w) {key : EfiInputKey} {keys rest : List EfiInputKey} {value : ℕ}
    (hscan : key.scanCode = 0) (hcommand : command key.unicodeChar = some .edit)
    (hcell : s.cursorState.width.toNat ∣ s.cursorState.offset.toNat)
    (hmapped : pageCoreIsRangeValid map (pageCoreGetCurrentAddress s.cursorState)
      s.cursorState.width = true)
    (hprompt : prompt (2 * s.cursorState.width.toNat) [] keys = some (some value, rest)) :
    ∃ s' w', Prog.visits (redrawIfNeeded (uefiAdapters fw)) (serveKey (uefiAdapters fw)) 1 s
        { w with keys := key :: keys } = some (s', w') ∧
      view s' w' = { Viewer.write (viewed fw map lib) (view s w) (some value) with keys := rest } ∧
      Viewing fw map lib s' w' ∧ Pointed (c.terminal fw) s' w' := by
  refine command_visit h hscan ?_
  unfold handleCommand
  rw [hcommand]
  refine (editCommand_view hpos hempty (h.withKeys keys)).trans ?_
  unfold Viewer.edit
  rw [if_pos ⟨hcell, (viewed_mapped fw map lib s { w with keys := keys }).2 hmapped⟩]
  show (prompt (2 * s.cursorState.width.toNat) [] keys).map _ = _
  rw [hprompt]
  show some { Viewer.write (viewed fw map lib) { view s w with keys := keys } (some value) with
    keys := rest } = _
  rw [write_withKeys _ _ keys]

/-! ## The address that is shown -/

/-- The address on the information row. -/
theorem Pointed.shows_address {T : Terminal UefiWorld (NxU64 → NxUintn → NxStatus × NxU64)}
    (h : Pointed T s w) (hw : WidthOk s.cursorState.width) :
    ShowsText (T.screen w).cells 19 8 (addressDigits (pageCoreGetCurrentAddress s.cursorState)) := by
  have hsplit : (infoText s.cursorState).map (BitVec.setWidth 16) = wide "Addr: 0x" ++
      (addressDigits (pageCoreGetCurrentAddress s.cursorState) ++
        (ascii "  Offset: " ++ hexDigits s.cursorState.offset 2 ++ ascii "  Width: " ++
          (decimalDigits s.cursorState.width 20).reverse).map (BitVec.setWidth 16)) := by
    unfold infoText addressDigits
    simp only [List.map_append, List.append_assoc]
    rfl
  have hinfo := h.shows_info hw
  rw [hsplit] at hinfo
  exact hinfo.part

end

/-- **The address that is shown can be typed back.**  Wherever a run awaits a key,
    the sixteen digits on its information row, typed at the goto prompt wherever a
    run awaits a key, take the cursor to the byte it was on; the width, physical
    memory and the keys after Enter are left alone. -/
theorem address_typed_back (c : Console) (fw : Firmware) (hpos : Positional fw.strHexToUint64)
    (hempty : fw.strHexToUint64 [] = 0) (n k : ℕ) (s₀ t₀ s t : PageMemPageState)
    (w₀ v₀ w v : UefiWorld) (hshown : runVisits (uefiAdapters fw) n s₀ w₀ = some (s, w))
    (hvisit : runVisits (uefiAdapters fw) k t₀ v₀ = some (t, v)) (text : List NxUiChar)
    (hlength : text.length = 16)
    (htext : ShowsText (c.screen w.console).cells pageMemInfoRow.toNat 8 text)
    (key enter : EfiInputKey) (hscan : key.scanCode = 0)
    (hgoto : key.unicodeChar = L 'g' ∨ key.unicodeChar = L 'G') (henter : Confirms enter)
    (keys rest : List EfiInputKey) (htypes : Types keys text) :
    ∃ t' v', Prog.visits (redrawIfNeeded (uefiAdapters fw)) (serveKey (uefiAdapters fw)) 1 t
        { v with keys := key :: (keys ++ enter :: rest) } = some (t', v') ∧
      t'.cursorState = ⟨s.cursorState.address, s.cursorState.offset, t.cursorState.width⟩ ∧
      v'.keys = rest ∧ v'.memory = v.memory ∧
      ShowsText (c.screen v'.console).cells pageMemInfoRow.toNat 8 text := by
  have hstart := visited_awaits c hshown
  have hdrawable := hstart.drawable
  obtain rfl : text = addressDigits (pageCoreGetCurrentAddress s.cursorState) := by
    refine htext.unique (hstart.pointed.shows_address hdrawable.width) (hlength.trans ?_)
    rw [addressDigits, List.length_map, length_hexDigits]
  have hcommand : command key.unicodeChar = some .goto := by
    rcases hgoto with h | h <;> rw [h] <;> rfl
  have hprompt := prompt_types 16 henter rest keys [] _ htypes (hexDigits_isHexDigit _ 16)
    (by rw [hlength]; decide)
  rw [List.nil_append, addressDigits, hexValue_hexDigits] at hprompt
  obtain ⟨t', v', hvisits, hview, hviewing, hpointed⟩ := goto_visit hpos hempty
    (visited_awaits c hvisit) hscan hcommand hprompt
  have haligned := hdrawable.address
  have hlt := hdrawable.offset
  -- the page is aligned, so nothing carries
  have hsum : (pageCoreGetCurrentAddress s.cursorState).toNat =
      s.cursorState.address.toNat + s.cursorState.offset.toNat := by
    unfold pageCoreGetCurrentAddress
    rw [BitVec.toNat_add]
    omega
  have hcursor : t'.cursorState =
      ⟨s.cursorState.address, s.cursorState.offset, t.cursorState.width⟩ := by
    refine cursor_of_toNat ?_ ?_ (congrArg Viewer.width hview)
    · have hblock : t'.cursorState.address.toNat =
          (pageCoreGetCurrentAddress s.cursorState).toNat % 16 ^ 16 / 256 * 256 :=
        congrArg Viewer.block hview
      rw [hblock, hsum]
      show _ = s.cursorState.address.toNat
      omega
    · have hbyte : t'.cursorState.offset.toNat =
          (pageCoreGetCurrentAddress s.cursorState).toNat % 16 ^ 16 % 256 :=
        congrArg Viewer.offset hview
      rw [hbyte, hsum]
      show _ = s.cursorState.offset.toNat
      omega
  have hshows := hpointed.shows_address hviewing.drawable.width
  rw [hcursor] at hshows
  exact ⟨t', v', hvisits, hcursor, congrArg Viewer.keys hview, congrArg Viewer.memory hview, hshows⟩

/-- The address after an arrow to the right, typed at the first key. -/
theorem address_typed_back_moved :
    ∃ t v t' v', runVisits (uefiAdapters codecFirmware) 0 enterState
        (.boot (fun _ => 0xAA) viewerKeys) = some (t, v) ∧
      Prog.visits (redrawIfNeeded (uefiAdapters codecFirmware))
        (serveKey (uefiAdapters codecFirmware)) 1 t
        { v with keys := ⟨0, L 'g'⟩ :: ((wide "0000000000001001").map (⟨0, ·⟩) ++
          [⟨0, charCarriageReturn⟩]) } = some (t', v') ∧
      t'.cursorState.address = 0x1000 ∧ t'.cursorState.offset = 1 := by
  obtain ⟨t, v, hvisit, -, hal, ht, -⟩ := viewerKeys_first
  have hmoved := runVisits_view codecFirmware_positional rfl hvisit hal 1
  have hstep : Refine.run (step (viewed codecFirmware t.addressMap v.memLib)) 1 (view t v) =
      some ⟨0x1000, 1, 1, fun _ => 0xAA, viewerKeys.tail⟩ := by
    rw [ht]
    exact congrArg (Option.bind · some)
      (@step_arrow _ _ ⟨0x0003, 0⟩ viewerKeys.tail 1 rfl (by decide) rfl)
  rw [hstep] at hmoved
  obtain ⟨⟨s, w⟩, hshown, hview⟩ := Option.map_eq_some_iff.1 hmoved
  have haddress : s.cursorState.address = 0x1000 :=
    BitVec.eq_of_toNat_eq (congrArg Viewer.block hview)
  have hoffset : s.cursorState.offset = 1 := BitVec.eq_of_toNat_eq (congrArg Viewer.offset hview)
  have hdrawable := (runVisits_drawable (uefiAdapters codecFirmware) _ _ 1 s w hshown).1
  have htext := (runVisits_pointed ((default : Console).uefi_drives codecFirmware)
    hshown).shows_address hdrawable.width
  have hdigits : addressDigits (pageCoreGetCurrentAddress s.cursorState) =
      wide "0000000000001001" := by
    unfold pageCoreGetCurrentAddress
    rw [haddress, hoffset]
    decide
  rw [hdigits] at htext
  obtain ⟨t', v', hvisits, hcursor, -⟩ := address_typed_back default codecFirmware
    codecFirmware_positional rfl 1 0 enterState enterState s t _ _ w v hshown hvisit
    (wide "0000000000001001") (by decide) htext ⟨0, L 'g'⟩ ⟨0, charCarriageReturn⟩ rfl
    (Or.inl rfl) ⟨by decide, rfl⟩ _ [] (types_codecWorld _)
  rw [haddress, hoffset] at hcursor
  exact ⟨t, v, t', v', hvisit, hvisits, congrArg PageMemCursorState.address hcursor,
    congrArg PageMemCursorState.offset hcursor⟩

/-! ## The value that is typed -/

/-- The text of the selected cell, if it can be read. -/
theorem cursorStroke_text {c : Console} {fw : Firmware} {s : PageMemPageState} {w : UefiWorld}
    (hw : WidthOk s.cursorState.width)
    (hmapped : pageCoreIsRangeValid s.addressMap (pageCoreGetCurrentAddress s.cursorState)
      s.cursorState.width = true)
    (hread : ReadAllowed fw.bootServices w.memLib (pageCoreGetCurrentAddress s.cursorState)
      s.cursorState.width) :
    ((c.terminal fw).cursorStroke (readOutcome fw w) s).text =
      byteText (ByteMem.byteOf (ByteMem.load w.memory (pageCoreGetCurrentAddress s.cursorState)
        s.cursorState.width.toNat)) s.cursorState.width.toNat ++ wide " " := by
  have hvalue : (c.terminal fw).valueAt (readOutcome fw w) s
      (pageCoreGetCurrentAddress s.cursorState) s.cursorState.width =
        (.success, BitVec.ofNat 64 (ByteMem.load w.memory (pageCoreGetCurrentAddress s.cursorState)
          s.cursorState.width.toNat)) := by
    unfold Terminal.valueAt
    rw [if_pos hmapped]
    exact readOutcome_of_allowed hread
  have htext : ((c.terminal fw).cursorStroke (readOutcome fw w) s).text =
      cellText s.cursorState.width
        ((c.terminal fw).valueAt (readOutcome fw w) s (pageCoreGetCurrentAddress s.cursorState)
          s.cursorState.width).1
        ((c.terminal fw).valueAt (readOutcome fw w) s (pageCoreGetCurrentAddress s.cursorState)
          s.cursorState.width).2 :=
    (c.terminal fw).render_plain _ (cellText_spec hw _ _).1
  rw [htext, hvalue, cellText_value hw, toNat_load hw]

/-- **What is typed is what is shown.**  Wherever a run awaits a key with the cursor
    on a cell that is mapped and may be read and written, a number that is typed at
    the edit prompt is stored there and nowhere else, and when the next key is
    awaited the cell, at its place on the screen, shows the digits that were typed,
    in upper case and filled up with zeros; if there were none, it shows zeros. -/
theorem typed_is_shown (c : Console) (fw : Firmware) (hpos : Positional fw.strHexToUint64)
    (hempty : fw.strHexToUint64 [] = 0) (n : ℕ) (s₀ s : PageMemPageState) (w₀ w : UefiWorld)
    (hvisit : runVisits (uefiAdapters fw) n s₀ w₀ = some (s, w))
    (hcell : s.cursorState.width.toNat ∣ s.cursorState.offset.toNat)
    (hmapped : pageCoreIsRangeValid s.addressMap (pageCoreGetCurrentAddress s.cursorState)
      s.cursorState.width = true)
    (hread : ReadAllowed fw.bootServices w.memLib (pageCoreGetCurrentAddress s.cursorState)
      s.cursorState.width)
    (hwrite : WriteAllowed fw.bootServices w.memLib (pageCoreGetCurrentAddress s.cursorState)
      s.cursorState.width)
    (text : List NxUiChar) (hlength : text.length ≤ s.cursorState.width.toNat * 2)
    (hdigits : ∀ d ∈ text, isHexDigit d = true) (key enter : EfiInputKey) (hscan : key.scanCode = 0)
    (hedit : key.unicodeChar = L 'e' ∨ key.unicodeChar = L 'E') (henter : Confirms enter)
    (keys rest : List EfiInputKey) (htypes : Types keys text) :
    ∃ s' w', Prog.visits (redrawIfNeeded (uefiAdapters fw)) (serveKey (uefiAdapters fw)) 1 s
        { w with keys := key :: (keys ++ enter :: rest) } = some (s', w') ∧
      s'.cursorState = s.cursorState ∧ w'.keys = rest ∧
      w'.memory = ByteMem.store w.memory (pageCoreGetCurrentAddress s.cursorState)
        s.cursorState.width.toNat (hexValue text) ∧
      ShowsText (c.screen w'.console).cells (getCellPosition s s.cursorState.offset).2.toNat
        (getCellPosition s s.cursorState.offset).1.toNat
        (padded (s.cursorState.width.toNat * 2) text ++ wide " ") := by
  have hstart := visited_awaits c hvisit
  have hw := hstart.drawable.width
  have hle := hw.toNat_le
  have hcommand : command key.unicodeChar = some .edit := by
    rcases hedit with h | h <;> rw [h] <;> rfl
  have hprompt := prompt_types (2 * s.cursorState.width.toNat) henter rest keys [] text htypes
    hdigits (by rw [List.length_nil]; omega)
  rw [List.nil_append] at hprompt
  obtain ⟨s', w', hvisits, hview, hviewing, hpointed⟩ :=
    edit_visit hpos hempty hstart hscan hcommand hcell hmapped hprompt
  rw [write_of_writable ((viewed_writable fw s.addressMap w.memLib s w).2 hwrite),
    currentAddress_eq] at hview
  have hcursor : s'.cursorState = s.cursorState :=
    cursor_of_toNat (congrArg Viewer.block hview) (congrArg Viewer.offset hview)
      (congrArg Viewer.width hview)
  have hmemory : w'.memory = ByteMem.store w.memory (pageCoreGetCurrentAddress s.cursorState)
      s.cursorState.width.toNat (hexValue text) := congrArg Viewer.memory hview
  refine ⟨s', w', hvisits, hcursor, congrArg Viewer.keys hview, hmemory, ?_⟩
  have hshows := hpointed.shows_cell hviewing.drawable.width hviewing.drawable.offset
    (by rw [hcursor]; exact hcell)
  have htext : ((c.terminal fw).cursorStroke (readOutcome fw w') s').text =
      padded (s.cursorState.width.toNat * 2) text ++ wide " " := by
    rw [cursorStroke_text hviewing.drawable.width
        (by rw [hviewing.map, hcursor]; exact hmapped)
        (by rw [hcursor]; exact hviewing.lib.readAllowed.2 hread),
      hcursor, hmemory, ByteMem.load_store _ _ _ (by omega),
      Nat.mod_eq_of_lt (hexValue_lt_width hlength hdigits), byteText_padded hlength hdigits]
  have hplace : ((c.terminal fw).cursorStroke (readOutcome fw w') s').row =
        (getCellPosition s s.cursorState.offset).2.toNat ∧
      ((c.terminal fw).cursorStroke (readOutcome fw w') s').column =
        (getCellPosition s s.cursorState.offset).1.toNat := by
    unfold Terminal.cursorStroke Terminal.cellStroke getCellPosition
    rw [hcursor]
    exact ⟨rfl, rfl⟩
  rw [← hplace.1, ← hplace.2, ← htext]
  exact hshows

/-- One digit, typed on the first byte of the page. -/
theorem typed_is_shown_digit :
    ∃ s w s' w', runVisits (uefiAdapters codecFirmware) 0 enterState
        (.boot (fun _ => 0xAA) viewerKeys) = some (s, w) ∧
      Prog.visits (redrawIfNeeded (uefiAdapters codecFirmware))
        (serveKey (uefiAdapters codecFirmware)) 1 s
        { w with keys := ⟨0, L 'e'⟩ :: ((wide "c").map (⟨0, ·⟩) ++ [⟨0, charCarriageReturn⟩]) } =
          some (s', w') ∧
      w'.memory = ByteMem.store w.memory 0x1000 1 0xC ∧
      ShowsText ((default : Console).screen w'.console).cells 3 4 (wide "0C ") := by
  obtain ⟨s, w, hvisit, hdescs, -, hview, hread, hwrite⟩ := viewerKeys_first
  have hcursor : s.cursorState = ⟨0x1000, 0, 1⟩ :=
    cursor_of_toNat (congrArg Viewer.block hview) (congrArg Viewer.offset hview)
      (congrArg Viewer.width hview)
  have hmapped : pageCoreIsRangeValid s.addressMap (pageCoreGetCurrentAddress s.cursorState)
      s.cursorState.width = true := by
    unfold pageCoreIsRangeValid
    rw [hdescs, hcursor]
    decide +kernel
  obtain ⟨s', w', hvisits, -, -, hmemory, hshows⟩ := typed_is_shown default codecFirmware
    codecFirmware_positional rfl 0 enterState s _ w hvisit (by rw [hcursor]; decide) hmapped
    (by rw [hcursor]; exact hread) (by rw [hcursor]; exact hwrite) (wide "c")
    (by rw [hcursor]; decide) (List.all_eq_true.1 (by decide)) ⟨0, L 'e'⟩
    ⟨0, charCarriageReturn⟩ rfl (Or.inl rfl) ⟨by decide, rfl⟩ _ [] (types_codecWorld _)
  have hvalue : hexValue (wide "c") = 0xC := by decide
  have hdigits : padded (s.cursorState.width.toNat * 2) (wide "c") ++ wide " " = wide "0C " := by
    rw [hcursor]
    decide +kernel
  have hplace : (getCellPosition s s.cursorState.offset).2.toNat = 3 ∧
      (getCellPosition s s.cursorState.offset).1.toNat = 4 := by
    unfold getCellPosition
    rw [hcursor]
    decide +kernel
  rw [hvalue, hcursor] at hmemory
  rw [hdigits, hplace.1, hplace.2] at hshows
  exact ⟨s, w, s', w', hvisit, hvisits, hmemory, hshows⟩

end UefiNexus
