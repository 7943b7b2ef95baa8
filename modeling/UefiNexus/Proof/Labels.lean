/-
  The grid labels its bytes.

  `byteColumn width b` is the column of the byte number `b` of a page in its row:
  the cells are `width * 2 + 1` columns apart, and a cell has its bytes from the
  last to the first.  The cell formatter, the heading formatter and the position
  of a cell agree on it (`byteText_byte`, `heading_byte`, `shows_cell`).  So
  the byte, the heading above it and the prefix of its row name the same offset
  (`grid_labels`).
-/
import UefiNexus.Proof.Codec
import UefiNexus.Proof.Console

namespace UefiNexus

open Grid

/-! ## Where a byte is -/

/-- The column of a byte of the page. -/
def byteColumn (width b : ℕ) : ℕ := 4 + b % 16 / width * (width * 2 + 1) + 2 * (width - 1 - b % width)

/-- The offset of the cell of a byte. -/
def cellStart (width : NxUintn) (b : ℕ) : NxUintn := BitVec.ofNat 64 (b / width.toNat * width.toNat)

/-- The two digits of a byte. -/
def byteDigits (x : NxU8) : List NxUiChar := [upperDigit (x.toNat / 16), upperDigit (x.toNat % 16)]

theorem upperNibbles (x : NxU8) : [upperDigit ((x >>> 4) &&& 0x0F).toNat,
    upperDigit (x &&& 0x0F).toNat] = byteDigits x := by
  have hlow := nibble_lt x
  have hbyte := nibbles x
  have hhigh : ((x >>> 4) &&& 0x0F).toNat = x.toNat / 16 := by omega
  have hrest : (x &&& 0x0F).toNat = x.toNat % 16 := by omega
  rw [hhigh, hrest, byteDigits]

/-- **The digits of the byte number `i`** in a text of `n` bytes. -/
theorem byteText_byte (byteAt : ℕ → NxU8) : ∀ {n i : ℕ}, i < n → ∀ j < 2,
    (byteText byteAt n)[2 * (n - 1 - i) + j]? = (byteDigits (byteAt i))[j]?
  | n + 1, i, hi, j, hj => by
    have hlength : (byteDigits (byteAt n)).length = 2 := rfl
    have hsplit : byteText byteAt (n + 1) = byteDigits (byteAt n) ++ byteText byteAt n := by
      rw [byteText_succ, ← upperNibbles]
      rfl
    rcases Nat.lt_succ_iff_lt_or_eq.1 hi with hlt | rfl
    · have hindex : 2 * (n + 1 - 1 - i) + j - 2 = 2 * (n - 1 - i) + j := by omega
      rw [hsplit, List.getElem?_append_right (by rw [hlength]; omega), hlength, hindex,
        byteText_byte byteAt hlt j hj]
    · have hindex : 2 * (i + 1 - 1 - i) + j = j := by omega
      rw [hsplit, hindex, List.getElem?_append_left (by rw [hlength]; exact hj)]

theorem toNat_offset {n : ℕ} (hn : n < 256) : (BitVec.ofNat 64 n : NxUintn).toNat = n := by
  rw [BitVec.toNat_ofNat, Nat.mod_eq_of_lt (by omega)]

section
variable {width : NxUintn} {b : ℕ}

theorem toNat_cellStart (hb : b < 256) :
    (cellStart width b).toNat = b / width.toNat * width.toNat := by
  rw [cellStart, toNat_offset (Nat.lt_of_le_of_lt (Nat.div_mul_le_self _ _) hb)]

/-- A cell begins at a multiple of the width, in the row of its bytes. -/
theorem cellStart_spec (hw : WidthOk width) (hb : b < 256) :
    (cellStart width b).toNat < 256 ∧ width.toNat ∣ (cellStart width b).toNat ∧
      (cellStart width b).toNat / 16 = b / 16 ∧
      (cellStart width b).toNat % 16 / width.toNat = b % 16 / width.toNat ∧
      (cellStart width b).toNat + b % width.toNat = b := by
  rw [toNat_cellStart hb]
  refine ⟨?_, Nat.dvd_mul_left .., ?_, ?_, ?_⟩
  · exact Nat.lt_of_le_of_lt (Nat.div_mul_le_self _ _) hb
  · obtain rfl | rfl | rfl | rfl := hw
    all_goals
      simp only [BitVec.reduceToNat]
      omega
  · obtain rfl | rfl | rfl | rfl := hw
    all_goals
      simp only [BitVec.reduceToNat]
      omega
  · exact Nat.div_add_mod' b width.toNat

theorem mod_width_lt (hw : WidthOk width) (b : ℕ) : b % width.toNat < width.toNat :=
  Nat.mod_lt _ hw.powTwo.pos

end

/-- The heading of a column is the numbers of its bytes, and a blank. -/
theorem columnHeading_eq {width : NxUintn} (hw : WidthOk width) (offset : NxUintn) :
    columnHeading width offset =
      byteText (fun index => (offset + BitVec.ofNat 64 index).setWidth 8) width.toNat ++
        wide " " := by
  have hsize := cellStrMax_ge hw
  have hblank : (ascii " ").map (BitVec.setWidth 16) = wide " " := by decide
  rw [columnHeading, widened_eq _ (by decide), pageCoreFormatOffsetHeader,
    formatCell_string _ hsize (le_uninitialized _), List.map_append, hblank, byteText]
  refine List.take_of_length_le ?_
  have hone : (wide " ").length = 1 := rfl
  rw [List.length_append, List.length_map, length_hexBytes]
  omega

/-- **The heading of a byte** is at the place in the header that the byte has in
    its row. -/
theorem heading_byte {width : NxUintn} (hw : WidthOk width) {b j : ℕ} (hj : j < 2) :
    ((List.range' 0 (16 / width.toNat)).flatMap fun k =>
      columnHeading width (cellOffset width k))[b % 16 / width.toNat * (width.toNat * 2 + 1) +
        2 * (width.toNat - 1 - b % width.toNat) + j]? =
      (byteDigits (BitVec.ofNat 8 (b % 16)))[j]? := by
  have hmod := mod_width_lt hw b
  have hlength : ∀ k, (columnHeading width (cellOffset width k)).length = width.toNat * 2 + 1 := by
    intro k
    rw [columnHeading_eq hw, List.length_append, length_byteText]
    rfl
  have hk : b % 16 / width.toNat < 16 / width.toNat := by
    obtain rfl | rfl | rfl | rfl := hw
    all_goals
      simp only [BitVec.reduceToNat]
      omega
  have hbyte : ((cellOffset width (b % 16 / width.toNat) +
      BitVec.ofNat 64 (b % width.toNat)).setWidth 8 : NxU8) = BitVec.ofNat 8 (b % 16) := by
    have hsum : b % 16 / width.toNat * width.toNat + b % width.toNat = b % 16 := by
      obtain rfl | rfl | rfl | rfl := hw
      all_goals
        simp only [BitVec.reduceToNat]
        omega
    rw [cellOffset, ← BitVec.ofNat_add, hsum]
    apply BitVec.eq_of_toNat_eq
    rw [BitVec.toNat_setWidth, BitVec.toNat_ofNat, BitVec.toNat_ofNat]
    omega
  have hin : 2 * (width.toNat - 1 - b % width.toNat) + j < width.toNat * 2 := by omega
  rw [Nat.add_assoc, getElem?_flatMap hlength (by omega), List.getElem?_range' (by simpa using hk)]
  show (columnHeading width (cellOffset width (0 + 1 * (b % 16 / width.toNat))))[_]? = _
  rw [Nat.zero_add, Nat.one_mul, columnHeading_eq hw,
    List.getElem?_append_left (by rw [length_byteText]; exact hin), byteText_byte _ hmod j hj, hbyte]

/-! ## What the page shows -/

/-- The prefix of a row. -/
def Terminal.prefixStroke {W M : Type} (T : Terminal W M) (offset : NxUintn) :
    Stroke NxUiChar NxUintn :=
  T.stroke 0 (pageMemDataRow + offset / cols)
    (widened (buildRowPrefixString offset (uninitialized 32) 32) 32) pageMemAttrNormal

/-- The preview of a row. -/
def Terminal.previewStroke {W M : Type} (T : Terminal W M) (e : M) (pageState : PageMemPageState)
    (offset : NxUintn) : Stroke NxUiChar NxUintn :=
  T.stroke 54 (pageMemDataRow + offset / cols)
    ((List.range' 0 cols.toNat).map (T.previewChar e pageState offset)) pageMemAttrNormal

theorem prefix_text (offset : NxUintn) :
    widened (buildRowPrefixString offset (uninitialized 32) 32) 32 =
      byteDigits (offset.setWidth 8) ++ wide ":" := by
  have hmask : (0xF : NxUintn).toNat = 2 ^ 4 - 1 := rfl
  have hbyte : (offset.setWidth 8 : NxU8).toNat = offset.toNat % 256 := BitVec.toNat_setWidth ..
  have hhigh : ((offset >>> (1 * 4)) &&& 0xF).toNat = (offset.setWidth 8 : NxU8).toNat / 16 := by
    rw [BitVec.toNat_and, hmask, Nat.and_two_pow_sub_one_eq_mod, BitVec.toNat_ushiftRight,
      Nat.shiftRight_eq_div_pow, hbyte]
    omega
  have hlow : ((offset >>> (0 * 4)) &&& 0xF).toNat = (offset.setWidth 8 : NxU8).toNat % 16 := by
    rw [BitVec.toNat_and, hmask, Nat.and_two_pow_sub_one_eq_mod, BitVec.toNat_ushiftRight,
      Nat.shiftRight_eq_div_pow, hbyte]
    omega
  have hcolon : (chr ':').setWidth 16 = L ':' := by decide
  rw [widened_eq _ (by decide), rowPrefix_string offset (by decide) (le_uninitialized _), hexDigits,
    hexDigits, hexDigits, hhigh, hlow]
  show [upperDigit _, upperDigit _, (chr ':').setWidth 16] = _
  rw [hcolon]
  rfl

theorem width_dvd {width : NxUintn} (hw : WidthOk width) {n : ℕ} (h : 16 ∣ n) :
    width.toNat ∣ n := by
  refine Nat.dvd_trans ?_ h
  obtain rfl | rfl | rfl | rfl := hw <;> decide

/-- The offsets of the lines. -/
theorem mod_cols_iff {offset : NxUintn} : offset % cols = 0 ↔ 16 ∣ offset.toNat := by
  have hcols : cols.toNat = 16 := rfl
  rw [← BitVec.toNat_inj, BitVec.toNat_umod, hcols]
  exact Nat.dvd_iff_mod_eq_zero.symm

section
variable {W M : Type} {T : Terminal W M} {e : M} {pageState : PageMemPageState}
  (hw : WidthOk pageState.cursorState.width) (attr : NxUintn) {offset : NxUintn}
  (hlt : offset.toNat < 256) (hdvd : 16 ∣ offset.toNat) {row column : ℕ}

include hdvd in
theorem lineStrokes_eq :
    T.lineStrokes e pageState offset = [T.prefixStroke offset, T.previewStroke e pageState offset] :=
  if_pos (mod_cols_iff.2 hdvd)

include hw hlt hdvd

omit hlt in
/-- Left and right of the cells there are the prefixes and the previews alone. -/
theorem line_of_covers {s : Stroke NxUiChar NxUintn} (hs : s ∈ T.gridStrokes e pageState)
    (hcovers : s.Covers (3 + offset.toNat / 16) column) (hside : column < 4 ∨ 52 ≤ column) :
    s = T.prefixStroke offset ∨ s = T.previewStroke e pageState offset := by
  obtain ⟨k, hk, hs⟩ := List.mem_flatMap.1 hs
  have hlt' := (cellOffset_lt hw hk).1
  have hstep := step_row hw hlt' hs
  have hon := hcovers.1
  rcases List.mem_append.1 hs with hs | hs
  · by_cases hfirst : 16 ∣ (cellOffset pageState.cursorState.width k).toNat
    · -- the first cell of a row is determined by the row
      have hsame : cellOffset pageState.cursorState.width k = offset := by
        rw [← BitVec.toNat_inj]
        omega
      rw [hsame, lineStrokes_eq hdvd] at hs
      simpa using hs
    · rw [Terminal.lineStrokes, if_neg fun h => hfirst (mod_cols_iff.1 h)] at hs
      cases hs
  · rw [List.mem_singleton.1 hs] at hcovers
    obtain ⟨-, hleft, hright⟩ := cell_covers hw hlt' hcovers
    obtain h | h | h | h := hw
    all_goals
      rw [h] at hleft hright
      simp only [BitVec.reduceToNat] at hleft hright
      omega

theorem line_mem : T.prefixStroke offset ∈ T.gridStrokes e pageState ∧
    T.previewStroke e pageState offset ∈ T.gridStrokes e pageState := by
  obtain ⟨k, hk, hoffset⟩ := exists_cellOffset hw hlt (width_dvd hw hdvd)
  constructor
  all_goals
    refine List.mem_flatMap.2 ⟨k, hk, List.mem_append_left _ ?_⟩
    rw [hoffset, lineStrokes_eq hdvd]
    simp

/-- Nothing is painted over the prefixes. -/
theorem prefix_on_top (h : (T.prefixStroke offset).Covers row column) :
    paintAll blank (T.pageStrokes e pageState attr) row column =
      (T.prefixStroke offset).shows row column := by
  have hrow : row = 3 + offset.toNat / 16 := h.1.trans (row_of_line hlt)
  have hcolumn : column < 3 := by
    obtain ⟨-, -, hright⟩ := h
    have hlength := length_rowPrefix_le offset
    rw [← T.render_plain _ (Terminal.rowPrefix_widened_plain offset)] at hlength
    have hzero : (T.prefixStroke offset).column = 0 := rfl
    rw [hzero, Nat.zero_add] at hright
    exact Nat.lt_of_lt_of_le hright hlength
  have hgrid : ¬ row = 19 := by omega
  rw [page_shown hw attr (by omega) (by omega), shown, if_neg hgrid]
  refine paintAll_eq (fun s hs hcovers => ?_) (Or.inr ⟨_, (line_mem hw hlt hdvd).1, h⟩)
  rw [hrow] at hcovers
  rcases line_of_covers hw hdvd hs hcovers (Or.inl (by omega)) with rfl | rfl
  · rfl
  · have hleft : 54 ≤ column := hcovers.2.1
    omega

/-- Right of the cells there is the preview. -/
theorem preview_on_top (hcolumn : 54 ≤ column) :
    paintAll blank (T.pageStrokes e pageState attr) (3 + offset.toNat / 16) column =
      (T.previewStroke e pageState offset).shows (3 + offset.toNat / 16) column := by
  have hgrid : ¬ 3 + offset.toNat / 16 = 19 := by omega
  have honly : ∀ s ∈ T.gridStrokes e pageState, s.Covers (3 + offset.toNat / 16) column →
      s = T.previewStroke e pageState offset := by
    intro s hs hcovers
    rcases line_of_covers hw hdvd hs hcovers (Or.inr (by omega)) with rfl | rfl
    · have hright := hcovers.2.2
      have hlength := length_rowPrefix_le offset
      rw [← T.render_plain _ (Terminal.rowPrefix_widened_plain offset)] at hlength
      have hzero : (T.prefixStroke offset).column = 0 := rfl
      have htext : (T.prefixStroke offset).text.length ≤ 3 := hlength
      omega
    · rfl
  rw [page_shown hw attr (by omega) (by omega), shown, if_neg hgrid]
  by_cases hcovered : (T.previewStroke e pageState offset).Covers (3 + offset.toNat / 16) column
  · refine paintAll_eq (fun s hs hcovers => ?_) (Or.inr ⟨_, (line_mem hw hlt hdvd).2, hcovered⟩)
    rw [honly s hs hcovers]
  · rw [Stroke.shows_eq_none hcovered, paintAll_apart]
    · rfl
    · intro s hs hcovers
      exact hcovered (honly s hs hcovers ▸ hcovers)

end

/-- Nothing is painted over the headings. -/
theorem header_on_top {W M : Type} {T : Terminal W M} {e : M} {pageState : PageMemPageState}
    (hw : WidthOk pageState.cursorState.width) (attr : NxUintn) {row column : ℕ}
    (h : (T.headerStroke pageState).Covers row column) :
    paintAll blank (T.pageStrokes e pageState attr) row column =
      (T.headerStroke pageState).shows row column := by
  have hrow : row = 2 := h.1
  refine paintAll_eq (fun s hs hcovers => ?_) (Or.inr ⟨T.headerStroke pageState, ?_, h⟩)
  · have hon : s.row = 2 := hcovers.1.symm.trans hrow
    rw [Terminal.pageStrokes] at hs
    rcases List.mem_append.1 hs with hs | hs
    · rw [Terminal.frameStrokes] at hs
      rcases List.mem_cons.1 hs with rfl | hs
      · exact absurd hon (by decide : ¬ pageMemTitleRow.toNat = 2)
      · rw [List.mem_singleton.1 hs] at hon
        exact absurd hon (by decide : ¬ pageMemTypeRow.toNat = 2)
    rcases List.mem_append.1 hs with hs | hs
    · rw [List.mem_singleton.1 hs]
    rcases List.mem_append.1 hs with hs | hs
    · obtain ⟨k, hk, hs⟩ := List.mem_flatMap.1 hs
      have hdata := step_row hw (cellOffset_lt hw hk).1 hs
      omega
    rcases List.mem_append.1 hs with hs | hs
    · have hhelp := help_rows hs
      omega
    · have hinfo := info_rows hs
      omega
  · exact List.mem_append_right _ (List.mem_cons_self ..)

section
variable {W M : Type} {T : Terminal W M} {e : M} {pageState : PageMemPageState} {b : ℕ}
  (hw : WidthOk pageState.cursorState.width) (attr : NxUintn)
include hw

/-- The characters of a cell are at the column of their byte. -/
theorem shows_cell (hb : b < 256) {text : List NxUiChar} (hlength : text.length = 2)
    (htext : ∀ j < 2, (cellText pageState.cursorState.width
      (T.valueAt e pageState (pageState.cursorState.address +
        cellStart pageState.cursorState.width b) pageState.cursorState.width).1
      (T.valueAt e pageState (pageState.cursorState.address +
        cellStart pageState.cursorState.width b) pageState.cursorState.width).2)[
          2 * (pageState.cursorState.width.toNat - 1 - b % pageState.cursorState.width.toNat) +
            j]? = text[j]?) :
    ShowsText (paintAll blank (T.pageStrokes e pageState attr)) (3 + b / 16)
      (byteColumn pageState.cursorState.width.toNat b) text := by
  obtain ⟨hlt, hdvd, hline, hcell, -⟩ := cellStart_spec hw hb
  obtain ⟨hcolumn, hrow⟩ := toNat_getCellPosition hw hlt
  have hplain := (cellText_spec hw
    (T.valueAt e pageState (pageState.cursorState.address +
      cellStart pageState.cursorState.width b) pageState.cursorState.width).1
    (T.valueAt e pageState (pageState.cursorState.address +
      cellStart pageState.cursorState.width b) pageState.cursorState.width).2).1
  have hplace : (T.cellStroke e pageState (cellStart pageState.cursorState.width b)
      (cellStart pageState.cursorState.width b = pageState.cursorState.offset)).row = 3 + b / 16 ∧
      (T.cellStroke e pageState (cellStart pageState.cursorState.width b)
        (cellStart pageState.cursorState.width b = pageState.cursorState.offset)).column =
          4 + b % 16 / pageState.cursorState.width.toNat *
            (pageState.cursorState.width.toNat * 2 + 1) :=
    ⟨hrow.trans (by rw [hline]), hcolumn.trans (by rw [hcell])⟩
  rw [byteColumn, ← hplace.1, ← hplace.2]
  refine showsText_of_shows (fun j hj => ?_) fun j hj hcovers => ?_
  · rw [← htext j (by omega)]
    show (T.render _)[_]? = _
    rw [T.render_plain _ hplain]
  · rw [hplace.1] at hcovers ⊢
    have hgrid : ¬ 3 + b / 16 = 19 := by omega
    rw [page_shown hw attr (by omega) (by omega), shown, if_neg hgrid]
    exact grid_cell hw hlt hdvd hcovers

/-- The headings are the offsets in the row, at the columns of their bytes. -/
theorem shows_heading :
    ShowsText (paintAll blank (T.pageStrokes e pageState attr)) 2
      (byteColumn pageState.cursorState.width.toNat b) (byteDigits (BitVec.ofNat 8 (b % 16))) := by
  have hstart : byteColumn pageState.cursorState.width.toNat b =
      (T.headerStroke pageState).column + (b % 16 / pageState.cursorState.width.toNat *
        (pageState.cursorState.width.toNat * 2 + 1) + 2 * (pageState.cursorState.width.toNat - 1 -
          b % pageState.cursorState.width.toNat)) := by
    have hcolumn : (T.headerStroke pageState).column = 4 := rfl
    rw [hcolumn, byteColumn]
    omega
  have hplain : T.render ((List.range' 0 (16 / pageState.cursorState.width.toNat)).flatMap fun k =>
      columnHeading pageState.cursorState.width (cellOffset pageState.cursorState.width k)) =
      (List.range' 0 (16 / pageState.cursorState.width.toNat)).flatMap fun k =>
        columnHeading pageState.cursorState.width (cellOffset pageState.cursorState.width k) := by
    refine T.render_plain _ fun c hc => ?_
    obtain ⟨k, -, hc⟩ := List.mem_flatMap.1 hc
    exact Terminal.columnHeading_plain hw _ c hc
  rw [hstart]
  refine showsText_of_shows (s := T.headerStroke pageState) (fun j hj => ?_) fun j _ hcovers => ?_
  · show (T.render _)[_]? = _
    rw [hplain]
    exact heading_byte hw hj
  · exact header_on_top hw attr hcovers

/-- The prefix of a row is the offset of its first byte. -/
theorem shows_prefix (hb : b < 256) :
    ShowsText (paintAll blank (T.pageStrokes e pageState attr)) (3 + b / 16) 0
      (byteDigits (BitVec.ofNat 8 (b / 16 * 16)) ++ wide ":") := by
  have hoffset : (BitVec.ofNat 64 (b / 16 * 16) : NxUintn).toNat = b / 16 * 16 :=
    toNat_offset (by omega)
  have hlt : (BitVec.ofNat 64 (b / 16 * 16) : NxUintn).toNat < 256 := by omega
  have hrow : (T.prefixStroke (BitVec.ofNat 64 (b / 16 * 16))).row = 3 + b / 16 := by
    refine (row_of_line hlt).trans ?_
    omega
  have htext : (T.prefixStroke (BitVec.ofNat 64 (b / 16 * 16))).text =
      byteDigits (BitVec.ofNat 8 (b / 16 * 16)) ++ wide ":" := by
    have hbyte : ((BitVec.ofNat 64 (b / 16 * 16) : NxUintn).setWidth 8 : NxU8) =
        BitVec.ofNat 8 (b / 16 * 16) := by
      apply BitVec.eq_of_toNat_eq
      rw [BitVec.toNat_setWidth, hoffset, BitVec.toNat_ofNat]
    rw [← hbyte, ← prefix_text]
    exact T.render_plain _ (Terminal.rowPrefix_widened_plain _)
  rw [← hrow, ← htext]
  exact showsText_self fun column hcovers =>
    prefix_on_top hw attr hlt (by rw [hoffset]; exact Nat.dvd_mul_left ..) hcovers

end

/-! ## The bytes of memory -/

/-- The characters of a value that was read. -/
theorem cellText_value {width : NxUintn} (hw : WidthOk width) (value : NxU64) :
    cellText width .success value =
      byteText (ByteMem.byteOf value.toNat) width.toNat ++ wide " " := by
  have hbytes : (fun index => ((value >>> (index * 8)) &&& 0xFF).setWidth 8 : ℕ → NxU8) =
      ByteMem.byteOf value.toNat := funext (valueByte_eq value)
  have hblank : (ascii " ").map (BitVec.setWidth 16) = wide " " := by decide
  rw [cellText_of_read hw rfl, hbytes, List.map_append, hblank, byteText]

/-- What `UefiBridgeMemRead` makes of a read by the policy. -/
theorem readOutcome_of_allowed {fw : Firmware} {w : UefiWorld} {a : NxU64} {width : NxUintn}
    (h : ReadAllowed fw.bootServices w.memLib a width) :
    readOutcome fw w a width =
      (.success, BitVec.ofNat 64 (ByteMem.load w.memory a width.toNat)) := by
  obtain ⟨lib', hr, -⟩ := memRead_of_allowed w.memory 0 h
  simp only [readOutcome, hr]
  rfl

/-- What it makes of the other reads. -/
theorem readOutcome_of_not_allowed {fw : Firmware} {w : UefiWorld} {a : NxU64} {width : NxUintn}
    (h : ¬ ReadAllowed fw.bootServices w.memLib a width) :
    nxUiError (readOutcome fw w a width).1 = true := by
  obtain ⟨status, lib', hr, he, -⟩ := memRead_of_not_allowed w.memory 0 h
  simp only [readOutcome, hr, if_pos he]
  simpa [nxUiError, efiStatusToUiStatus_eq_success] using he

/-- The range is valid in the address map, and `MemRead` of it succeeds. -/
def rangeReadable (fw : Firmware) (w : UefiWorld) (pageState : PageMemPageState) (a : NxU64)
    (width : NxUintn) : Bool :=
  pageCoreIsRangeValid pageState.addressMap a width &&
    (memRead fw.bootServices w.memLib w.memory a width (some 0)).1 = efiSuccess

/-- The outcome of a range that the view reads. -/
theorem valueAt_cases (c : Console) (fw : Firmware) (w : UefiWorld) (pageState : PageMemPageState)
    (a : NxU64) (width : NxUintn) :
    (rangeReadable fw w pageState a width = true ∧ WidthOk width ∧
      (c.terminal fw).valueAt (readOutcome fw w) pageState a width =
        (.success, BitVec.ofNat 64 (ByteMem.load w.memory a width.toNat))) ∨
    (rangeReadable fw w pageState a width = false ∧
      nxUiError ((c.terminal fw).valueAt (readOutcome fw w) pageState a width).1 = true) := by
  simp only [rangeReadable, Terminal.valueAt]
  by_cases hvalid : pageCoreIsRangeValid pageState.addressMap a width = true
  · rw [if_pos hvalid, hvalid, Bool.true_and]
    by_cases hread : ReadAllowed fw.bootServices w.memLib a width
    · exact Or.inl ⟨decide_eq_true (memRead_success_iff.2 hread), hread.1,
        readOutcome_of_allowed hread⟩
    · exact Or.inr ⟨decide_eq_false fun h => hread (memRead_success_iff.1 h),
        readOutcome_of_not_allowed hread⟩
  · rw [if_neg hvalid, Bool.eq_false_iff.2 hvalid, Bool.false_and]
    exact Or.inr ⟨rfl, rfl⟩

section
variable {c : Console} {fw : Firmware} {w : UefiWorld} {pageState : PageMemPageState} {b : ℕ}
  (hw : WidthOk pageState.cursorState.width)
include hw

/-- The characters of a cell at the place of a byte. -/
theorem cellText_byte : ∀ j < 2, (cellText pageState.cursorState.width
    ((c.terminal fw).valueAt (readOutcome fw w) pageState (pageState.cursorState.address +
      cellStart pageState.cursorState.width b) pageState.cursorState.width).1
    ((c.terminal fw).valueAt (readOutcome fw w) pageState (pageState.cursorState.address +
      cellStart pageState.cursorState.width b) pageState.cursorState.width).2)[
        2 * (pageState.cursorState.width.toNat - 1 - b % pageState.cursorState.width.toNat) + j]? =
    (if rangeReadable fw w pageState (pageState.cursorState.address +
        cellStart pageState.cursorState.width b) pageState.cursorState.width then
      byteDigits (w.memory (pageState.cursorState.address + BitVec.ofNat 64 b))
    else [L '?', L '?'])[j]? := by
  intro j hj
  have hmod := mod_width_lt hw b
  have hin : 2 * (pageState.cursorState.width.toNat - 1 - b % pageState.cursorState.width.toNat) +
      j < pageState.cursorState.width.toNat * 2 := by omega
  rcases valueAt_cases c fw w pageState (pageState.cursorState.address +
      cellStart pageState.cursorState.width b) pageState.cursorState.width with
    ⟨hreadable, -, hvalue⟩ | ⟨hreadable, herror⟩
  · have haddress : pageState.cursorState.address + cellStart pageState.cursorState.width b +
        BitVec.ofNat 64 (b % pageState.cursorState.width.toNat) =
        pageState.cursorState.address + BitVec.ofNat 64 b := by
      rw [BitVec.add_assoc, cellStart, ← BitVec.ofNat_add, Nat.div_add_mod']
    rw [hvalue, cellText_value hw, List.getElem?_append_left (by rw [length_byteText]; exact hin),
      byteText_byte _ hmod j hj, byteOf_load hw, if_pos hmod, haddress, if_pos hreadable]
  · rw [cellText_of_error hw herror,
      List.getElem?_append_left (by rw [List.length_replicate]; exact hin),
      List.getElem?_replicate, if_pos hin, hreadable]
    obtain rfl | rfl : j = 0 ∨ j = 1 := by omega
    all_goals rfl

/-- The places of two bytes in a row do not overlap. -/
theorem byteColumn_apart {b' : ℕ} (hrow : b / 16 = b' / 16)
    (hle : byteColumn pageState.cursorState.width.toNat b ≤
      byteColumn pageState.cursorState.width.toNat b' + 1)
    (hle' : byteColumn pageState.cursorState.width.toNat b' ≤
      byteColumn pageState.cursorState.width.toNat b + 1) : b = b' := by
  simp only [byteColumn] at hle hle'
  -- the bytes are in the same cell, or one cell is to the left of the other
  rcases Nat.lt_trichotomy (b % 16 / pageState.cursorState.width.toNat)
    (b' % 16 / pageState.cursorState.width.toNat) with hcell | hcell | hcell
  all_goals
    obtain h | h | h | h := hw
    all_goals
      rw [h] at hle hle' hcell
      simp only [BitVec.reduceToNat] at hle hle' hcell
      omega

end

/-- **The grid labels every byte.**  After a redraw on the UEFI adapters, for
    every byte of the page there is a place of two characters in its row: it shows
    the byte, or `??` where its cell is not valid or is not read; in the header,
    the same columns show the number of the byte in its row, and the prefix of the
    row shows the offset of its first byte.  The places of two bytes do not
    overlap. -/
theorem grid_labels (c : Console) (fw : Firmware) (pageState : PageMemPageState)
    (hw : WidthOk pageState.cursorState.width) (w : UefiWorld) :
    ∃ w', pageMemViewDrawPage (uefiAdapters fw).tui (uefiAdapters fw).memory pageState w =
        (some (), w') ∧
      ∀ b < 256,
        ShowsText (c.screen w'.console).cells (pageMemDataRow.toNat + b / 16)
          (byteColumn pageState.cursorState.width.toNat b)
          (if rangeReadable fw w pageState (pageState.cursorState.address +
              cellStart pageState.cursorState.width b) pageState.cursorState.width then
            byteDigits (w.memory (pageState.cursorState.address + BitVec.ofNat 64 b))
          else [L '?', L '?']) ∧
        ShowsText (c.screen w'.console).cells pageMemHeaderRow.toNat
          (byteColumn pageState.cursorState.width.toNat b)
          (byteDigits (BitVec.ofNat 8 (b % 16))) ∧
        ShowsText (c.screen w'.console).cells (pageMemDataRow.toNat + b / 16) 0
          (byteDigits (BitVec.ofNat 8 (b / 16 * 16)) ++ wide ":") ∧
        ∀ b' < 256, b / 16 = b' / 16 →
          byteColumn pageState.cursorState.width.toNat b ≤
            byteColumn pageState.cursorState.width.toNat b' + 1 →
          byteColumn pageState.cursorState.width.toNat b' ≤
            byteColumn pageState.cursorState.width.toNat b + 1 → b = b' := by
  obtain ⟨w', hdraw, -, -, hcells⟩ := (c.uefi_drives fw).drawPage_spec pageState hw w
  have hscreen : (c.screen w'.console).cells = paintAll blank
      ((c.terminal fw).pageStrokes (readOutcome fw w) pageState (c.screen w.console).attr) := hcells
  refine ⟨w', hdraw, fun b hb => ?_⟩
  rw [hscreen]
  refine ⟨shows_cell hw _ hb ?_ (cellText_byte hw), shows_heading hw _, shows_prefix hw _ hb,
    fun b' _ hrow hle hle' => byteColumn_apart hw hrow hle hle'⟩
  split_ifs <;> rfl

/-- The word `0x1AB` in memory is shown as `01AB`, under the heading `0100`. -/
theorem grid_labels_word :
    ∃ w', pageMemViewDrawPage (uefiAdapters codecFirmware).tui (uefiAdapters codecFirmware).memory
        codecState codecEdited = (some (), w') ∧
      ShowsText ((default : Console).screen w'.console).cells 3 4 (byteDigits 0x01) ∧
      ShowsText ((default : Console).screen w'.console).cells 3 6 (byteDigits 0xAB) ∧
      ShowsText ((default : Console).screen w'.console).cells 2 4 (byteDigits 1) ∧
      ShowsText ((default : Console).screen w'.console).cells 2 6 (byteDigits 0) := by
  obtain ⟨w', hdraw, hbytes⟩ := grid_labels default codecFirmware codecState (Or.inr (Or.inl rfl))
    codecEdited
  obtain ⟨hlow, hlabel, -⟩ := hbytes 0 (by decide)
  obtain ⟨hhigh, hlabel', -⟩ := hbytes 1 (by decide)
  have hreadable : rangeReadable codecFirmware codecEdited codecState
        (codecState.cursorState.address + cellStart codecState.cursorState.width 0)
        codecState.cursorState.width = true ∧
      rangeReadable codecFirmware codecEdited codecState
        (codecState.cursorState.address + cellStart codecState.cursorState.width 1)
        codecState.cursorState.width = true := by decide +kernel
  have hmemory : codecEdited.memory (codecState.cursorState.address + BitVec.ofNat 64 0) = 0xAB ∧
      codecEdited.memory (codecState.cursorState.address + BitVec.ofNat 64 1) = 0x01 := by
    decide +kernel
  rw [if_pos hreadable.1, hmemory.1] at hlow
  rw [if_pos hreadable.2, hmemory.2] at hhigh
  exact ⟨w', hdraw, hhigh, hlow, hlabel', hlabel⟩

end UefiNexus
