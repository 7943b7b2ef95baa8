/-
  What the console shows of a text.

  The UEFI bridge passes a text to `Print` as its format.  `printFormat` is what
  `Print` is documented to do with a format without arguments: `%` begins a
  conversion, `%%` prints one `%`, and the other characters are printed as they
  are.  A text without `%` is printed as it is (`printFormat_literal`); the
  previews are the only texts of a page that can have one.  So a page is shown
  as it is exactly if no byte that is read is `%` (`literal_iff_no_percent`).
-/
import UefiNexus.Proof.Labels

namespace UefiNexus

open Grid

/-! ## Formats -/

/-- What a conversion prints, and how many of the characters after its `%` it
    takes; it is given these characters. -/
abbrev Conversion := List NxUiChar → List NxUiChar × ℕ

/-- `Print` of a format of at most `n` characters. -/
def printUpTo (conversion : Conversion) : ℕ → List NxUiChar → List NxUiChar
  | 0, _ => []
  | _ + 1, [] => []
  | n + 1, c :: text =>
    if c ≠ L '%' then c :: printUpTo conversion n text
    else if text.head? = some (L '%') then L '%' :: printUpTo conversion n text.tail
    else (conversion text).1 ++ printUpTo conversion n (text.drop (conversion text).2)

/-- `Print` of a format. -/
def printFormat (conversion : Conversion) (text : List NxUiChar) : List NxUiChar :=
  printUpTo conversion text.length text

/-- A text without `%` is printed as it is. -/
theorem printFormat_literal (conversion : Conversion) {text : List NxUiChar}
    (h : L '%' ∉ text) : printFormat conversion text = text := by
  unfold printFormat
  induction text with
  | nil => rfl
  | cons c text ih =>
    simp only [List.mem_cons, not_or] at h
    rw [List.length_cons, printUpTo, if_pos (Ne.symm h.1), ih h.2]

/-- A conversion that prints the character after its `%`. -/
def printType : Conversion := fun text => (text.take 1, 1)

/-- With it, a text gets no longer, and one with a `%` comes out shorter. -/
theorem length_printUpTo : ∀ (n : ℕ) (text : List NxUiChar), text.length ≤ n →
    (printUpTo printType n text).length ≤ text.length ∧
      (L '%' ∈ text → (printUpTo printType n text).length < text.length)
  | 0, text, h => by
    rw [List.length_eq_zero_iff.1 (Nat.le_zero.1 h)]
    exact ⟨Nat.zero_le _, fun hmem => by cases hmem⟩
  | _ + 1, [], _ => ⟨Nat.le_refl _, fun hmem => by cases hmem⟩
  | n + 1, c :: text, h => by
    have hlen : text.length ≤ n := by simpa using h
    rw [printUpTo]
    split_ifs with hc hhead
    · obtain ⟨hle, hlt⟩ := length_printUpTo n text hlen
      refine ⟨by simpa using hle, fun hmem => ?_⟩
      rcases List.mem_cons.1 hmem with heq | hrest
      · exact absurd heq.symm hc
      · simpa using hlt hrest
    · -- two characters give one
      obtain ⟨htail, -⟩ := length_printUpTo n text.tail (by simp; omega)
      have hpos : 0 < text.length := by
        cases text with
        | nil => cases hhead
        | cons => exact Nat.succ_pos _
      simp only [List.length_cons, List.length_tail] at htail ⊢
      omega
    · obtain ⟨hdrop, -⟩ := length_printUpTo n (text.drop 1) (by simp; omega)
      simp only [printType, List.length_append, List.length_take, List.length_drop,
        List.length_cons] at hdrop ⊢
      omega

/-! ## Consoles -/

namespace Console

/-- The console prints formats as `Print` is documented to. -/
def PrintsFormats (c : Console) : Prop := ∃ conversion, c.render = printFormat conversion

theorem noPercent_of_plain {text : List NxUiChar} (h : ∀ c ∈ text, Plain c) : L '%' ∉ text := by
  intro hmem
  exact (h _ hmem).2 (by decide)

/-- A console with given conversions. -/
def ofConversion (conversion : Conversion) : Console where
  initial := ⟨blank, 0, 0, 0⟩
  render := printFormat conversion
  render_plain _ h := printFormat_literal conversion (noPercent_of_plain h)
  print format _ := Grid.put (printFormat conversion format)
  put_printable _ _ := rfl

/-- The console that shows every text as it is. -/
def literal (c : Console) : Console where
  initial := c.initial
  render := id
  render_plain := id_plain
  print format _ := Grid.put format
  put_printable := put_id

end Console

/-! ## The previews -/

section
variable (fw : Firmware) (w : UefiWorld) (pageState : PageMemPageState)

/-- The byte is read for the preview. -/
def byteReadable (b : ℕ) : Bool :=
  rangeReadable fw w pageState (pageState.cursorState.address + BitVec.ofNat 64 b) 1

/-- The character of a byte in the preview. -/
def previewByte (b : ℕ) : NxUiChar :=
  let byte := w.memory (pageState.cursorState.address + BitVec.ofNat 64 b)
  if byteReadable fw w pageState b ∧ byte ≥ 32 ∧ byte ≤ 126 then byte.setWidth 16 else L '.'

/-- The preview of a row. -/
def previewRow (r : ℕ) : List NxUiChar :=
  (List.range 16).map fun i => previewByte fw w pageState (16 * r + i)

theorem length_previewRow (r : ℕ) : (previewRow fw w pageState r).length = 16 := by
  simp [previewRow]

/-- The preview has a `%` exactly where one is read. -/
theorem previewByte_percent_iff (b : ℕ) : previewByte fw w pageState b = L '%' ↔
    byteReadable fw w pageState b = true ∧
      w.memory (pageState.cursorState.address + BitVec.ofNat 64 b) = 0x25 := by
  have hdot : L '.' ≠ L '%' := by decide
  have hpercent : L '%' = (0x25 : NxU8).setWidth 16 := by decide
  have hrange : (32 : NxU8) ≤ 0x25 ∧ (0x25 : NxU8) ≤ 126 := by decide
  simp only [previewByte]
  split_ifs with hshow
  · rw [hpercent]
    refine ⟨fun h => ⟨hshow.1, ?_⟩, fun h => by rw [h.2]⟩
    bv_omega
  · refine iff_of_false hdot fun h => hshow ⟨h.1, ?_⟩
    rw [h.2]
    exact hrange

theorem percent_mem_previewRow_iff (r : ℕ) : L '%' ∈ previewRow fw w pageState r ↔
    ∃ i < 16, byteReadable fw w pageState (16 * r + i) = true ∧
      w.memory (pageState.cursorState.address + BitVec.ofNat 64 (16 * r + i)) = 0x25 := by
  simp only [previewRow, List.mem_map, List.mem_range, previewByte_percent_iff]

/-- The view computes this character. -/
theorem previewChar_eq (c : Console) (r i : ℕ) :
    (c.terminal fw).previewChar (readOutcome fw w) pageState (BitVec.ofNat 64 (16 * r)) i =
      previewByte fw w pageState (16 * r + i) := by
  have haddress : pageState.cursorState.address + (BitVec.ofNat 64 (16 * r) + BitVec.ofNat 64 i) =
      pageState.cursorState.address + BitVec.ofNat 64 (16 * r + i) := by
    rw [← BitVec.ofNat_add]
  rcases valueAt_cases c fw w pageState
      (pageState.cursorState.address + BitVec.ofNat 64 (16 * r + i)) 1 with
    ⟨hreadable, -, hvalue⟩ | ⟨hreadable, herror⟩
  · have hread : byteReadable fw w pageState (16 * r + i) = true := hreadable
    have hok : nxUiError .success = false := rfl
    have hbyte : (BitVec.ofNat 64 (ByteMem.load w.memory (pageState.cursorState.address +
        BitVec.ofNat 64 (16 * r + i)) (1 : NxUintn).toNat)).setWidth 8 =
        w.memory (pageState.cursorState.address + BitVec.ofNat 64 (16 * r + i)) := by
      have hwidth : (1 : NxUintn).toNat = 1 := rfl
      apply BitVec.eq_of_toNat_eq
      rw [hwidth, ByteMem.load_one, BitVec.toNat_setWidth, BitVec.toNat_ofNat]
      have hlt := (w.memory
        (pageState.cursorState.address + BitVec.ofNat 64 (16 * r + i))).isLt
      omega
    simp only [Terminal.previewChar, previewByte, haddress, hvalue, hread, hbyte, hok,
      Bool.false_eq_true, not_false_eq_true, true_and]
  · have hread : byteReadable fw w pageState (16 * r + i) = false := hreadable
    simp only [Terminal.previewChar, previewByte, haddress, hread, herror, not_true_eq_false,
      Bool.false_eq_true, false_and, if_false]

/-- The text of a preview. -/
theorem previewText_eq (c : Console) (r : ℕ) :
    (List.range' 0 cols.toNat).map ((c.terminal fw).previewChar (readOutcome fw w) pageState
      (BitVec.ofNat 64 (16 * r))) = previewRow fw w pageState r := by
  have hcols : cols.toNat = 16 := rfl
  rw [hcols, ← List.range_eq_range', previewRow]
  exact List.map_congr_left fun i _ => previewChar_eq fw w pageState c r i

end

/-! ## The texts of a page -/

section
variable {c : Console} {fw : Firmware} {w : UefiWorld} {pageState : PageMemPageState}

/-- A text without control characters makes the same stroke on both consoles. -/
theorem stroke_literal {column row attr : NxUintn} {text : List NxUiChar}
    (h : c.render text = text) : (c.terminal fw).stroke column row text attr =
      (c.literal.terminal fw).stroke column row text attr := by
  show (⟨_, _, c.render text, _⟩ : Stroke NxUiChar NxUintn) = ⟨_, _, text, _⟩
  rw [h]

theorem stroke_plain {column row attr : NxUintn} {text : List NxUiChar}
    (h : ∀ c ∈ text, Plain c) : (c.terminal fw).stroke column row text attr =
      (c.literal.terminal fw).stroke column row text attr :=
  stroke_literal (c.render_plain text h)

/-- If the previews are shown as they are, so are the lines. -/
theorem lineStrokes_literal
    (hpreview : ∀ r < 16, c.render (previewRow fw w pageState r) = previewRow fw w pageState r)
    {offset : NxUintn} (hlt : offset.toNat < 256) :
    (c.terminal fw).lineStrokes (readOutcome fw w) pageState offset =
      (c.literal.terminal fw).lineStrokes (readOutcome fw w) pageState offset := by
  by_cases hdvd : 16 ∣ offset.toNat
  · obtain ⟨r, hr⟩ := hdvd
    have hoffset : offset = BitVec.ofNat 64 (16 * r) := by
      rw [← hr, BitVec.ofNat_toNat, BitVec.setWidth_eq]
    rw [lineStrokes_eq ⟨r, hr⟩, lineStrokes_eq ⟨r, hr⟩, Terminal.prefixStroke,
      Terminal.prefixStroke, stroke_plain (Terminal.rowPrefix_widened_plain offset), hoffset,
      Terminal.previewStroke, Terminal.previewStroke, previewText_eq, previewText_eq,
      stroke_literal (hpreview r (by omega))]
  · have hmid : ¬ offset % cols = 0 := fun h => hdvd (mod_cols_iff.1 h)
    rw [Terminal.lineStrokes, Terminal.lineStrokes, if_neg hmid, if_neg hmid]

variable (hw : WidthOk pageState.cursorState.width)
include hw

/-- If the previews are shown as they are, so is the page. -/
theorem pageStrokes_literal (attr : NxUintn)
    (hpreview : ∀ r < 16, c.render (previewRow fw w pageState r) = previewRow fw w pageState r) :
    (c.terminal fw).pageStrokes (readOutcome fw w) pageState attr =
      (c.literal.terminal fw).pageStrokes (readOutcome fw w) pageState attr := by
  have hblank : ∀ row, (c.terminal fw).blankStroke (readOutcome fw w) row =
      (c.literal.terminal fw).blankStroke (readOutcome fw w) row :=
    fun row => stroke_plain (Terminal.blanks_plain _)
  have hinfo : (c.terminal fw).infoStrokes (readOutcome fw w) pageState =
      (c.literal.terminal fw).infoStrokes (readOutcome fw w) pageState := by
    rw [Terminal.infoStrokes, Terminal.infoStrokes, hblank,
      stroke_plain (Terminal.info_widened_plain pageState)]
  have hhelp : (c.terminal fw).helpStrokes (readOutcome fw w) =
      (c.literal.terminal fw).helpStrokes (readOutcome fw w) := by
    have hhelp₁ : ∀ ch ∈ pageMemHelpText, Plain ch := plain_of_all (by decide)
    have hhelp₂ : ∀ ch ∈ wide "E: Edit  G: Goto  R: Ranges  1/2/4/8: Width  ESC: Exit", Plain ch :=
      plain_of_all (by decide)
    rw [Terminal.helpStrokes, Terminal.helpStrokes, hblank, hblank, stroke_plain (c := c) hhelp₁,
      stroke_plain (c := c) hhelp₂]
  have hheader : (c.terminal fw).headerStroke pageState =
      (c.literal.terminal fw).headerStroke pageState := by
    refine stroke_plain fun ch hch => ?_
    obtain ⟨k, -, hch⟩ := List.mem_flatMap.1 hch
    exact Terminal.columnHeading_plain hw _ ch hch
  have hframe : (c.terminal fw).frameStrokes pageState attr =
      (c.literal.terminal fw).frameStrokes pageState attr := by
    rw [Terminal.frameStrokes, Terminal.frameStrokes, stroke_plain (plain_of_all (by decide)),
      stroke_plain (Terminal.type_widened_plain pageState)]
  have hgrid : (c.terminal fw).gridStrokes (readOutcome fw w) pageState =
      (c.literal.terminal fw).gridStrokes (readOutcome fw w) pageState := by
    refine List.flatMap_congr fun k hk => ?_
    rw [Terminal.stepStrokes, Terminal.stepStrokes,
      lineStrokes_literal hpreview (cellOffset_lt hw hk).1]
    congr 2
    exact stroke_plain (cellText_spec hw _ _).1
  rw [Terminal.pageStrokes, Terminal.pageStrokes, hframe, hheader, hgrid, hhelp, hinfo]

omit hw in
/-- The characters of a page do not depend on the attribute it is drawn with. -/
theorem map_fst_pageStrokes {W M : Type} (T : Terminal W M) (e : M) (attr attr' : NxUintn)
    (row column : ℕ) :
    (paintAll blank (T.pageStrokes e pageState attr) row column).map Prod.fst =
      (paintAll blank (T.pageStrokes e pageState attr') row column).map Prod.fst := by
  have hframe : ∀ attr, (paintAll blank (T.frameStrokes pageState attr) row column).map Prod.fst =
      (paintAll blank (T.frameStrokes pageState 0) row column).map Prod.fst := by
    intro attr
    simp only [Terminal.frameStrokes, paintAll, List.foldl_cons, List.foldl_nil, paint,
      Option.map_or, Stroke.map_fst_shows]
    rfl
  have hpage : ∀ attr, (paintAll blank (T.pageStrokes e pageState attr) row column).map Prod.fst =
      ((paintAll blank ([T.headerStroke pageState] ++ (T.gridStrokes e pageState ++
        (T.helpStrokes e ++ T.infoStrokes e pageState))) row column).map Prod.fst).or
          ((paintAll blank (T.frameStrokes pageState 0) row column).map Prod.fst) := by
    intro attr
    rw [Terminal.pageStrokes, paintAll_append, paintAll_or, Option.map_or, hframe attr]
  rw [hpage attr, hpage attr']

end

/-! ## Literal output -/

/-- **The page is shown as it is**: after a redraw, the screen has the characters
    of the console that shows every text as it is, and right of the grid it shows
    the sixteen characters of each row and nothing else. -/
def ShownLiterally (c : Console) (fw : Firmware) (w : UefiWorld) (pageState : PageMemPageState) :
    Prop :=
  ∃ w', pageMemViewDrawPage (uefiAdapters fw).tui (uefiAdapters fw).memory pageState w =
      (some (), w') ∧
    (∀ row column, ((c.screen w'.console).cells row column).map Prod.fst =
      ((c.literal.screen w'.console).cells row column).map Prod.fst) ∧
    ∀ r < 16,
      ShowsText (c.screen w'.console).cells (pageMemDataRow.toNat + r) 54
        (previewRow fw w pageState r) ∧
      ∀ column, 70 ≤ column → (c.screen w'.console).cells (pageMemDataRow.toNat + r) column = none

section
variable {c : Console} {fw : Firmware} {w : UefiWorld} {pageState : PageMemPageState}
  (hw : WidthOk pageState.cursorState.width)
include hw

/-- What is right of the grid. -/
theorem preview_shown (attr : NxUintn) {r column : ℕ} (hr : r < 16) (hcolumn : 54 ≤ column) :
    (paintAll blank ((c.terminal fw).pageStrokes (readOutcome fw w) pageState attr)
      (pageMemDataRow.toNat + r) column).map Prod.fst =
        (c.render (previewRow fw w pageState r))[column - 54]? := by
  have hoffset : (BitVec.ofNat 64 (16 * r) : NxUintn).toNat = 16 * r := toNat_offset (by omega)
  have hlt : (BitVec.ofNat 64 (16 * r) : NxUintn).toNat < 256 := by omega
  have hdvd : 16 ∣ (BitVec.ofNat 64 (16 * r) : NxUintn).toNat := by
    rw [hoffset]
    exact Nat.dvd_mul_right 16 r
  have hrow : pageMemDataRow.toNat + r = 3 + (BitVec.ofNat 64 (16 * r) : NxUintn).toNat / 16 := by
    have hdata : pageMemDataRow.toNat = 3 := rfl
    omega
  rw [hrow, preview_on_top hw attr hlt hdvd hcolumn, Stroke.map_fst_shows,
    if_pos ⟨(row_of_line hlt).symm, hcolumn⟩, ← previewText_eq fw w pageState c r]
  rfl

/-- The page is shown as it is exactly if its previews are printed as they are. -/
theorem shownLiterally_iff : ShownLiterally c fw w pageState ↔
    ∀ r < 16, c.render (previewRow fw w pageState r) = previewRow fw w pageState r := by
  obtain ⟨w', hdraw, -, -, hcells⟩ := (c.uefi_drives fw).drawPage_spec pageState hw w
  obtain ⟨w₁, hdraw₁, -, -, hcells₁⟩ := (c.literal.uefi_drives fw).drawPage_spec pageState hw w
  obtain rfl : w' = w₁ := by
    rw [hdraw] at hdraw₁
    simpa using hdraw₁
  replace hcells : (c.screen w'.console).cells = paintAll blank ((c.terminal fw).pageStrokes
    (readOutcome fw w) pageState (c.screen w.console).attr) := hcells
  replace hcells₁ : (c.literal.screen w'.console).cells = paintAll blank
    ((c.literal.terminal fw).pageStrokes (readOutcome fw w) pageState
      (c.literal.screen w.console).attr) := hcells₁
  have hshown : ∀ r < 16, ∀ column, 54 ≤ column →
      ((c.screen w'.console).cells (pageMemDataRow.toNat + r) column).map Prod.fst =
        (c.render (previewRow fw w pageState r))[column - 54]? := by
    intro r hr column hcolumn
    rw [hcells]
    exact preview_shown hw _ hr hcolumn
  constructor
  · rintro ⟨w₂, hdraw₂, -, hrows⟩ r hr
    obtain rfl : w' = w₂ := by
      rw [hdraw] at hdraw₂
      simpa using hdraw₂
    obtain ⟨hrow, hright⟩ := hrows r hr
    have hlength := length_previewRow fw w pageState r
    refine List.ext_getElem? fun i => ?_
    have hat := hshown r hr (54 + i) (Nat.le_add_right 54 i)
    rw [Nat.add_sub_cancel_left] at hat
    rw [← hat]
    rcases Nat.lt_or_ge i 16 with hi | hi
    · exact hrow i (by omega)
    · rw [hright (54 + i) (by omega), List.getElem?_eq_none (by omega)]
      rfl
  · intro hpreview
    refine ⟨w', hdraw, fun row column => ?_, fun r hr => ⟨fun i hi => ?_, fun column hcolumn => ?_⟩⟩
    · rw [hcells, hcells₁, pageStrokes_literal hw _ hpreview]
      exact map_fst_pageStrokes _ _ _ _ _ _
    · rw [hshown r hr _ (Nat.le_add_right 54 i), Nat.add_sub_cancel_left, hpreview r hr]
    · have hat := hshown r hr column (Nat.le_trans (by decide : 54 ≤ 70) hcolumn)
      rw [hpreview r hr, List.getElem?_eq_none (by rw [length_previewRow]; omega)] at hat
      exact Option.map_eq_none_iff.1 hat

end

/-- **Text output is literal** for every console that prints formats as documented
    exactly if no byte of the page that is read is `%`. -/
theorem literal_iff_no_percent (fw : Firmware) (w : UefiWorld) (pageState : PageMemPageState)
    (hw : WidthOk pageState.cursorState.width) :
    (∀ c : Console, c.PrintsFormats → ShownLiterally c fw w pageState) ↔
      ∀ b < 256, byteReadable fw w pageState b = true →
        w.memory (pageState.cursorState.address + BitVec.ofNat 64 b) ≠ 0x25 := by
  constructor
  · intro hall b hb hread hpercent
    have hmem : L '%' ∈ previewRow fw w pageState (b / 16) := by
      refine (percent_mem_previewRow_iff fw w pageState _).2 ⟨b % 16, Nat.mod_lt _ (by decide), ?_⟩
      rw [Nat.div_add_mod]
      exact ⟨hread, hpercent⟩
    have hshown := hall (.ofConversion printType) ⟨printType, rfl⟩
    have hrender := (shownLiterally_iff hw).1 hshown (b / 16) (by omega)
    have hshort : (printFormat printType (previewRow fw w pageState (b / 16))).length < _ :=
      (length_printUpTo _ _ (Nat.le_refl _)).2 hmem
    rw [show printFormat printType _ = _ from hrender] at hshort
    exact Nat.lt_irrefl _ hshort
  · rintro hno c ⟨conversion, hrender⟩
    refine (shownLiterally_iff hw).2 fun r hr => ?_
    rw [hrender]
    refine printFormat_literal conversion fun hmem => ?_
    obtain ⟨i, hi, hread, hpercent⟩ := (percent_mem_previewRow_iff fw w pageState r).1 hmem
    exact hno _ (by omega) hread hpercent

/-- A page full of `0xAA` is shown as it is, by conversions that print a character. -/
theorem literal_without_percent :
    ShownLiterally (.ofConversion printType) enterFirmware enterWorld enterState :=
  (literal_iff_no_percent enterFirmware enterWorld enterState (Or.inl rfl)).2
    (fun _ _ _ => (by decide : (0xAA : NxU8) ≠ 0x25)) _ ⟨printType, rfl⟩

/-- A page full of `%`. -/
def percentWorld : UefiWorld := { enterWorld with memory := fun _ => 0x25 }

/-- No console that prints formats as documented shows it as it is: a preview of
    sixteen characters comes out as eight. -/
theorem percent_page_cut :
    (¬ ∀ c : Console, c.PrintsFormats → ShownLiterally c enterFirmware percentWorld enterState) ∧
    (∀ c : Console, c.PrintsFormats → ¬ ShownLiterally c enterFirmware percentWorld enterState) ∧
    previewRow enterFirmware percentWorld enterState 0 = List.replicate 16 (L '%') ∧
    ∀ conversion, printFormat conversion (List.replicate 16 (L '%')) =
      List.replicate 8 (L '%') := by
  have hrow : previewRow enterFirmware percentWorld enterState 0 = List.replicate 16 (L '%') := by
    decide +kernel
  have hprint : ∀ conversion, printFormat conversion (List.replicate 16 (L '%')) =
      List.replicate 8 (L '%') := fun _ => rfl
  have hno : ∀ c : Console, c.PrintsFormats →
      ¬ ShownLiterally c enterFirmware percentWorld enterState := by
    rintro c ⟨conversion, hrender⟩ hshown
    have hsame := (shownLiterally_iff (Or.inl rfl)).1 hshown 0 (by decide)
    rw [hrow, hrender, hprint] at hsame
    exact absurd (congrArg List.length hsame) (by decide)
  exact ⟨fun hall => hno _ ⟨printType, rfl⟩ (hall (.ofConversion printType) ⟨printType, rfl⟩), hno,
    hrow, hprint⟩

end UefiNexus
