/-
  What is shown can be typed, and what is typed is shown.

  * `hexValue text`: the number a text of hexadecimal digits stands for;
  * the digits of a cell stand for its value (`hexValue_byteText`), and digits in
    upper case are determined by their number and the value (`upperDigits_unique`);
  * hence an edit with the digits of its cell changes nothing, and a value that
    was typed is shown as it was typed (`display_edit_inverse`).
-/
import Mathlib.Data.Nat.Digits.Lemmas
import UefiNexus.Proof.Outcomes
import UefiNexus.Proof.Prompt
import UefiNexus.Proof.Texts

namespace UefiNexus

/-! ## Digits -/

/-- The value of a hexadecimal digit. -/
def digitValue (c : NxUiChar) : ℕ :=
  if c ≤ L '9' then c.toNat - (L '0').toNat
  else if c ≤ L 'F' then c.toNat - (L 'A').toNat + 10
  else c.toNat - (L 'a').toNat + 10

/-- The number a text of digits stands for, the most significant digit first. -/
def hexValue (text : List NxUiChar) : ℕ := Nat.ofDigits 16 (text.map digitValue).reverse

/-- A digit in upper case. -/
def upperCase (c : NxUiChar) : NxUiChar := if c ≥ L 'a' ∧ c ≤ L 'f' then c - 32 else c

/-- The digit in upper case. -/
def upperDigit (d : ℕ) : NxUiChar := (hexChar d).setWidth 16

theorem isHexDigit_iff {c : NxUiChar} : isHexDigit c = true ↔
    (48 ≤ c.toNat ∧ c.toNat ≤ 57) ∨ (97 ≤ c.toNat ∧ c.toNat ≤ 102) ∨
      (65 ≤ c.toNat ∧ c.toNat ≤ 70) := by
  have hzero : (L '0').toNat = 48 ∧ (L '9').toNat = 57 := by decide
  have hlow : (L 'a').toNat = 97 ∧ (L 'f').toNat = 102 := by decide
  have hup : (L 'A').toNat = 65 ∧ (L 'F').toNat = 70 := by decide
  simp only [isHexDigit, Bool.or_eq_true, Bool.and_eq_true, decide_eq_true_eq, ge_iff_le,
    BitVec.le_def, hzero, hlow, hup, or_assoc]

/-- A hexadecimal digit has a value, and is that digit in upper case. -/
theorem digit_spec {c : NxUiChar} (h : isHexDigit c = true) :
    digitValue c < 16 ∧ upperDigit (digitValue c) = upperCase c := by
  have hall : ∀ n : Fin 128, isHexDigit (BitVec.ofNat 16 n.val) = true →
      digitValue (BitVec.ofNat 16 n.val) < 16 ∧
        upperDigit (digitValue (BitVec.ofNat 16 n.val)) = upperCase (BitVec.ofNat 16 n.val) := by
    decide
  have hlt : c.toNat < 128 := by
    have hrange := isHexDigit_iff.1 h
    omega
  have hc := hall ⟨c.toNat, hlt⟩
  simp only [BitVec.ofNat_toNat, BitVec.setWidth_eq] at hc
  exact hc h

theorem upperDigit_spec {d : ℕ} (h : d < 16) :
    isHexDigit (upperDigit d) = true ∧ digitValue (upperDigit d) = d := by
  have hall : ∀ d : Fin 16, isHexDigit (upperDigit d.val) = true ∧
      digitValue (upperDigit d.val) = d.val := by
    decide
  exact hall ⟨d, h⟩

/-- The digits are upper-case hexadecimal digits. -/
def UpperDigits (text : List NxUiChar) : Prop := ∀ c ∈ text, ∃ d < 16, c = upperDigit d

theorem UpperDigits.map_digitValue {text : List NxUiChar} (h : UpperDigits text) :
    (text.map digitValue).map upperDigit = text := by
  induction text with
  | nil => rfl
  | cons c text ih =>
    obtain ⟨hc, htext⟩ := List.forall_mem_cons.1 h
    obtain ⟨d, hd, rfl⟩ := hc
    rw [List.map_cons, List.map_cons, (upperDigit_spec hd).2, ih htext]

theorem UpperDigits.digitValue_lt {text : List NxUiChar} (h : UpperDigits text) :
    ∀ d ∈ (text.map digitValue).reverse, d < 16 := by
  intro d hd
  obtain ⟨c, hc, rfl⟩ := List.mem_map.1 (List.mem_reverse.1 hd)
  obtain ⟨d, hlt, rfl⟩ := h c hc
  rw [(upperDigit_spec hlt).2]
  exact hlt

/-- **Digits in upper case** are determined by their number and their value. -/
theorem upperDigits_unique {text text' : List NxUiChar} (h : UpperDigits text)
    (h' : UpperDigits text') (hlength : text.length = text'.length)
    (hvalue : hexValue text = hexValue text') : text = text' := by
  have hdigits : text.map digitValue = text'.map digitValue := by
    refine List.reverse_injective (Nat.ofDigits_inj_of_len_eq (by decide) ?_ h.digitValue_lt
      h'.digitValue_lt hvalue)
    rw [List.length_reverse, List.length_reverse, List.length_map, List.length_map, hlength]
  rw [← h.map_digitValue, hdigits, h'.map_digitValue]

/-- A text of `n` digits stands for less than `16 ^ n`. -/
theorem hexValue_lt {text : List NxUiChar} (h : ∀ c ∈ text, isHexDigit c = true) :
    hexValue text < 16 ^ text.length := by
  have hlt : ∀ d ∈ (text.map digitValue).reverse, d < 16 := by
    intro d hd
    obtain ⟨c, hc, rfl⟩ := List.mem_map.1 (List.mem_reverse.1 hd)
    exact (digit_spec (h c hc)).1
  have hvalue := Nat.ofDigits_lt_base_pow_length (by decide) hlt
  rw [List.length_reverse, List.length_map] at hvalue
  exact hvalue

/-! ## What is shown -/

/-- The text of the bytes `byteAt (n - 1), …, byteAt 0`. -/
def byteText (byteAt : ℕ → NxU8) (n : ℕ) : List NxUiChar :=
  (hexBytes byteAt n).map (BitVec.setWidth 16)

theorem byteText_succ (byteAt : ℕ → NxU8) (n : ℕ) :
    byteText byteAt (n + 1) = upperDigit ((byteAt n >>> 4) &&& 0x0F).toNat ::
      upperDigit (byteAt n &&& 0x0F).toNat :: byteText byteAt n := rfl

theorem length_byteText (byteAt : ℕ → NxU8) (n : ℕ) : (byteText byteAt n).length = n * 2 := by
  rw [byteText, List.length_map, length_hexBytes]

theorem nibble_lt (x : NxU8) : (x &&& 0x0F).toNat < 16 :=
  Nat.lt_of_le_of_lt Nat.and_le_right (by decide)

theorem byteText_upper (byteAt : ℕ → NxU8) : ∀ n, UpperDigits (byteText byteAt n)
  | 0 => fun _ hc => absurd hc List.not_mem_nil
  | n + 1 =>
    List.forall_mem_cons.2 ⟨⟨_, nibble_lt _, rfl⟩,
      List.forall_mem_cons.2 ⟨⟨_, nibble_lt _, rfl⟩, byteText_upper byteAt n⟩⟩

/-- A byte is its two digits. -/
theorem nibbles (x : NxU8) :
    (x &&& 0x0F).toNat + 16 * ((x >>> 4) &&& 0x0F).toNat = x.toNat := by
  have hx := x.isLt
  have hmask : (0x0F : NxU8).toNat = 2 ^ 4 - 1 := rfl
  have hshift : (x >>> 4).toNat = x.toNat / 16 := by
    rw [BitVec.toNat_ushiftRight, Nat.shiftRight_eq_div_pow]
  rw [BitVec.toNat_and, BitVec.toNat_and, hmask, Nat.and_two_pow_sub_one_eq_mod,
    Nat.and_two_pow_sub_one_eq_mod, hshift]
  omega

/-- **The digits of a cell** stand for the little-endian value of its bytes. -/
theorem hexValue_byteText (byteAt : ℕ → NxU8) :
    ∀ n, hexValue (byteText byteAt n) = ByteMem.leValue byteAt n
  | 0 => rfl
  | n + 1 => by
    have ih := hexValue_byteText byteAt n
    have hlength : ((byteText byteAt n).map digitValue).reverse.length = n * 2 := by
      rw [List.length_reverse, List.length_map, length_byteText]
    have hpow : 16 ^ (n * 2) = 256 ^ n := by
      rw [Nat.mul_comm, Nat.pow_mul]
    rw [hexValue] at ih
    rw [byteText_succ, hexValue, List.map_cons, List.map_cons, List.reverse_cons,
      List.reverse_cons, (upperDigit_spec (nibble_lt _)).2, (upperDigit_spec (nibble_lt _)).2,
      List.append_assoc, Nat.ofDigits_append, ih, hlength, hpow, ByteMem.leValue,
      ← nibbles (byteAt n), Nat.mul_comm (256 ^ n)]
    rw [List.singleton_append, Nat.ofDigits_cons, Nat.ofDigits_singleton]

/-- The bytes of a value, as the formatter extracts them. -/
theorem valueByte_eq (value : NxU64) (index : ℕ) :
    (((value >>> (index * 8)) &&& 0xFF).setWidth 8 : NxU8) = ByteMem.byteOf value.toNat index := by
  have hmask : (0xFF : NxU64).toNat = 2 ^ 8 - 1 := rfl
  have hpow : 2 ^ (index * 8) = 256 ^ index := by
    rw [Nat.mul_comm, Nat.pow_mul]
  apply BitVec.eq_of_toNat_eq
  rw [BitVec.toNat_setWidth, BitVec.toNat_and, BitVec.toNat_ushiftRight, hmask,
    Nat.and_two_pow_sub_one_eq_mod, Nat.shiftRight_eq_div_pow, hpow, Nat.mod_mod, ByteMem.byteOf,
    BitVec.toNat_ofNat]

/-- The text `PageCoreFormatValueLE` writes, and the blank after it. -/
theorem formatValue_string (value : NxU64) {width : NxUintn} {buffer : List NxChar}
    {bufferSize : ℕ} (hsize : width.toNat * 2 + 2 ≤ bufferSize)
    (hlen : bufferSize ≤ buffer.length) :
    (cstr (pageCoreFormatValueLE value width buffer bufferSize).1).map (BitVec.setWidth 16) =
      byteText (ByteMem.byteOf value.toNat) width.toNat ++ wide " " := by
  have hbytes : (fun index => ((value >>> (index * 8)) &&& 0xFF).setWidth 8 : ℕ → NxU8) =
      ByteMem.byteOf value.toNat := funext (valueByte_eq value)
  have hblank : (ascii " ").map (BitVec.setWidth 16) = wide " " := by decide
  rw [pageCoreFormatValueLE, formatCell_string _ hsize hlen, hbytes, List.map_append, hblank,
    byteText]

/-! ## What is typed -/

/-- The keys type the text, and nothing else. -/
structure Types (keys : List EfiInputKey) (text : List NxUiChar) : Prop where
  noEsc : ∀ key ∈ keys, key.scanCode ≠ scanEsc
  chars : keys.map EfiInputKey.unicodeChar = text

/-- **The value of a text of digits**: what `StrHexToUint64` is documented to return. -/
def Positional (strHexToUint64 : List NxUiChar → NxU64) : Prop :=
  ∀ text : List NxUiChar, text ≠ [] → text.length ≤ 16 → (∀ c ∈ text, isHexDigit c = true) →
    (strHexToUint64 text).toNat = hexValue text

theorem foldl_typeKey (limit : ℕ) : ∀ (keys : List EfiInputKey) (line : List NxUiChar),
    (∀ key ∈ keys, isHexDigit key.unicodeChar = true) → line.length + keys.length ≤ limit →
      keys.foldl (typeKey limit) line = line ++ keys.map EfiInputKey.unicodeChar
  | [], line, _, _ => (List.append_nil line).symm
  | key :: keys, line, hdigits, hlimit => by
    obtain ⟨hkey, hkeys⟩ := List.forall_mem_cons.1 hdigits
    rw [List.length_cons] at hlimit
    have hroom : line.length < limit := by omega
    have hlimit' : (line ++ [key.unicodeChar]).length + keys.length ≤ limit := by
      rw [List.length_append, List.length_singleton]
      omega
    rw [List.foldl_cons, typeKey, if_pos ⟨hkey, hroom⟩, foldl_typeKey limit keys _ hkeys hlimit',
      List.append_assoc, List.singleton_append, List.map_cons]

section
variable {width : NxUintn} {keys : List EfiInputKey} {text : List NxUiChar}

theorem WidthOk.digitLimit (hw : WidthOk width) : digitLimit (width * 2) = width.toNat * 2 := by
  obtain h | h | h | h := hw <;> rw [h] <;> decide

theorem Types.digits (h : Types keys text) (hdigits : ∀ c ∈ text, isHexDigit c = true) :
    ∀ key ∈ keys, isHexDigit key.unicodeChar = true := by
  intro key hkey
  refine hdigits _ ?_
  rw [← h.chars]
  exact List.mem_map_of_mem hkey

theorem Types.keepsTyping (h : Types keys text) (hdigits : ∀ c ∈ text, isHexDigit c = true) :
    ∀ key ∈ keys, KeepsTyping key := by
  intro key hkey
  refine ⟨h.noEsc key hkey, fun hcr => ?_⟩
  have hdigit := h.digits hdigits key hkey
  rw [hcr] at hdigit
  exact absurd hdigit (by decide)

/-- The line of a text of digits that has room is the text. -/
theorem Types.line (h : Types keys text) (hw : WidthOk width)
    (hdigits : ∀ c ∈ text, isHexDigit c = true) (hlength : text.length ≤ width.toNat * 2) :
    typedLine (width * 2) keys = text := by
  have hkeys : keys.length = text.length := by rw [← h.chars, List.length_map]
  rw [typedLine, hw.digitLimit, foldl_typeKey _ keys [] (h.digits hdigits) ?_, List.nil_append,
    h.chars]
  rw [List.length_nil, hkeys]
  omega

theorem Positional.lt {strHexToUint64 : List NxUiChar → NxU64} (h : Positional strHexToUint64)
    (hw : WidthOk width) (hne : text ≠ []) (hlength : text.length ≤ width.toNat * 2)
    (hdigits : ∀ c ∈ text, isHexDigit c = true) :
    (strHexToUint64 text).toNat = hexValue text ∧ hexValue text < 256 ^ width.toNat := by
  have hle := hw.toNat_le
  have hpow : 16 ^ (width.toNat * 2) = 256 ^ width.toNat := by
    rw [Nat.mul_comm, Nat.pow_mul]
  refine ⟨h text hne (by omega) hdigits, ?_⟩
  rw [← hpow]
  exact (hexValue_lt hdigits).trans_le (Nat.pow_le_pow_right (by decide) hlength)

/-- A value of the width passes the check. -/
theorem fitsWidth_of_lt (hw : WidthOk width) {value : NxU64}
    (h : value.toNat < 256 ^ width.toNat) : pageMemValueFitsWidth value width = true := by
  have hmax : ∀ maxValue : NxU64, value.toNat ≤ maxValue.toNat → decide (value ≤ maxValue) = true :=
    fun maxValue hle => decide_eq_true (BitVec.le_def.2 hle)
  obtain rfl | rfl | rfl | rfl := hw
  · exact hmax 0xFF (Nat.le_of_lt_succ h)
  · exact hmax 0xFFFF (Nat.le_of_lt_succ h)
  · exact hmax 0xFFFFFFFF (Nat.le_of_lt_succ h)
  · rfl

end

/-! ## The edit -/

section
variable {fw : Firmware} {w : UefiWorld} {keys rest : List EfiInputKey} {enter : EfiInputKey}
  {text : List NxUiChar} {pageState : PageMemPageState}

/-- **An edit with a typed text** that is not rejected stores its value. -/
theorem editValue_types (hpos : Positional fw.strHexToUint64)
    (hw : WidthOk pageState.cursorState.width) (hkeys : w.keys = keys ++ enter :: rest)
    (henter : Confirms enter) (htypes : Types keys text) (hne : text ≠ [])
    (hlength : text.length ≤ pageState.cursorState.width.toNat * 2)
    (hdigits : ∀ c ∈ text, isHexDigit c = true) :
    ∃ status w', pageMemActionEditValue pageState (uefiAdapters fw) w = (some status, w') ∧
      (status ≠ .success ∧ w'.memory = w.memory ∨
        WriteAllowed fw.bootServices w.memLib (pageCoreGetCurrentAddress pageState.cursorState)
          pageState.cursorState.width ∧
        w'.memory = ByteMem.store w.memory (pageCoreGetCurrentAddress pageState.cursorState)
          pageState.cursorState.width.toNat (hexValue text)) := by
  obtain ⟨hvalue, hlt⟩ := hpos.lt hw hne hlength hdigits
  rcases haccept : editRejects pageState with _ | message
  · have hline := htypes.line hw hdigits hlength
    have hfits := fitsWidth_of_lt hw (hvalue ▸ hlt)
    rw [← hline] at hfits
    obtain ⟨console, hedit⟩ :=
      editValue_enter hkeys (htypes.keepsTyping hdigits) henter haccept hfits
    rw [hline] at hedit
    rw [hedit]
    by_cases hallowed : WriteAllowed fw.bootServices w.memLib
        (pageCoreGetCurrentAddress pageState.cursorState) pageState.cursorState.width
    · have hwrite : WriteAllowed fw.bootServices
          { w with keys := rest, console := console : UefiWorld }.memLib
          (pageCoreGetCurrentAddress pageState.cursorState) pageState.cursorState.width := hallowed
      obtain ⟨lib', hdone, -⟩ := uefiBridgeMemWrite_of_allowed (fw.strHexToUint64 text) hwrite
      rw [hdone, hvalue]
      exact ⟨_, _, rfl, Or.inr ⟨hallowed, rfl⟩⟩
    · have hwrite : ¬ WriteAllowed fw.bootServices
          { w with keys := rest, console := console : UefiWorld }.memLib
          (pageCoreGetCurrentAddress pageState.cursorState) pageState.cursorState.width := hallowed
      obtain ⟨status, lib', hdone, herr, -⟩ :=
        uefiBridgeMemWrite_of_not_allowed (fw.strHexToUint64 text) hwrite
      rw [hdone]
      refine ⟨_, _, rfl, Or.inl ⟨?_, rfl⟩⟩
      rintro rfl
      exact absurd herr (by decide)
  · rw [editValue_eq, haccept]
    exact ⟨_, _, rfl, Or.inl ⟨by decide, rfl⟩⟩

/-- The text a cell shows for a value: what `PageCoreFormatValueLE` writes, without
    the blank. -/
theorem formatValue_digits (value : NxU64) {width : NxUintn} {buffer : List NxChar}
    {bufferSize : ℕ} (hsize : width.toNat * 2 + 2 ≤ bufferSize)
    (hlen : bufferSize ≤ buffer.length) :
    ((cstr (pageCoreFormatValueLE value width buffer bufferSize).1).map
      (BitVec.setWidth 16)).take (width.toNat * 2) =
        byteText (ByteMem.byteOf value.toNat) width.toNat := by
  rw [formatValue_string value hsize hlen, ← length_byteText (ByteMem.byteOf value.toNat),
    List.take_left]

/-- The text of a value: digits, at least two, that stand for its low bytes. -/
theorem byteText_spec {width : NxUintn} (hw : WidthOk width) (value : NxU64) :
    byteText (ByteMem.byteOf value.toNat) width.toNat ≠ [] ∧
      (byteText (ByteMem.byteOf value.toNat) width.toNat).length = width.toNat * 2 ∧
      (∀ c ∈ byteText (ByteMem.byteOf value.toNat) width.toNat, isHexDigit c = true) ∧
      hexValue (byteText (ByteMem.byteOf value.toNat) width.toNat) =
        value.toNat % 2 ^ (8 * width.toNat) := by
  have hlength := length_byteText (ByteMem.byteOf value.toNat) width.toNat
  have hpos : 0 < width.toNat := by
    obtain h | h | h | h := hw <;> rw [h] <;> decide
  refine ⟨fun hnil => ?_, hlength, fun c hc => ?_, ?_⟩
  · rw [hnil, List.length_nil] at hlength
    omega
  · obtain ⟨d, hd, rfl⟩ := byteText_upper _ _ c hc
    exact (upperDigit_spec hd).1
  · rw [hexValue_byteText, ByteMem.leValue_byteOf, Nat.pow_mul]

/-- A text of digits in upper case, filled up with zeros. -/
def padded (n : ℕ) (text : List NxUiChar) : List NxUiChar :=
  List.replicate (n - text.length) (L '0') ++ text.map upperCase

theorem padded_spec {n : ℕ} (hlength : text.length ≤ n)
    (hdigits : ∀ c ∈ text, isHexDigit c = true) :
    UpperDigits (padded n text) ∧ (padded n text).length = n ∧
      hexValue (padded n text) = hexValue text := by
  have hupper : ∀ c ∈ text, upperCase c = upperDigit (digitValue c) ∧ digitValue c < 16 :=
    fun c hc => ⟨(digit_spec (hdigits c hc)).2.symm, (digit_spec (hdigits c hc)).1⟩
  have hzero : L '0' = upperDigit 0 ∧ digitValue (L '0') = 0 := by decide
  have hvalues : (text.map upperCase).map digitValue = text.map digitValue := by
    rw [List.map_map]
    refine List.map_congr_left fun c hc => ?_
    obtain ⟨heq, hlt⟩ := hupper c hc
    rw [Function.comp_apply, heq, (upperDigit_spec hlt).2]
  refine ⟨fun c hc => ?_, ?_, ?_⟩
  · rcases List.mem_append.1 hc with hc | hc
    · exact ⟨0, by decide, (List.eq_of_mem_replicate hc).trans hzero.1⟩
    · obtain ⟨d, hd, rfl⟩ := List.mem_map.1 hc
      exact ⟨_, (hupper d hd).2, (hupper d hd).1⟩
  · rw [padded, List.length_append, List.length_replicate, List.length_map]
    omega
  · rw [hexValue, padded, List.map_append, hvalues, List.map_replicate, hzero.2,
      List.reverse_append, List.reverse_replicate, Nat.ofDigits_append_replicate_zero, hexValue]

/-- The prompt returns the value of a typed text. -/
theorem tuiReadHex_types {width : NxUintn} (hw : WidthOk width)
    (hkeys : w.keys = keys ++ enter :: rest) (henter : Confirms enter) (htypes : Types keys text)
    (hlength : text.length ≤ width.toNat * 2) (hdigits : ∀ c ∈ text, isHexDigit c = true) :
    ∃ w', tuiReadHex fw (width * 2) w = (some (true, fw.strHexToUint64 text), w') := by
  obtain ⟨console, hprompt⟩ := @tuiReadHex_enter fw w keys rest enter (width * 2) hkeys
    (htypes.keepsTyping hdigits) henter
  rw [htypes.line hw hdigits hlength] at hprompt
  exact ⟨_, hprompt⟩

/-- An edit with the digits that are shown for the value that is read stores what
    is there. -/
theorem edit_shown (hpos : Positional fw.strHexToUint64) (hw : WidthOk pageState.cursorState.width)
    (hkeys : w.keys = keys ++ enter :: rest) (henter : Confirms enter) {value : NxU64}
    (htypes : Types keys (byteText (ByteMem.byteOf value.toNat) pageState.cursorState.width.toNat))
    (hok : (memRead fw.bootServices w.memLib w.memory
      (pageCoreGetCurrentAddress pageState.cursorState) pageState.cursorState.width (some 0)).1 =
        efiSuccess)
    (hshown : (memRead fw.bootServices w.memLib w.memory
      (pageCoreGetCurrentAddress pageState.cursorState) pageState.cursorState.width
        (some 0)).2.1 = some value) :
    (pageMemActionEditValue pageState (uefiAdapters fw) w).2.memory = w.memory := by
  obtain ⟨hne, hlength, hdigits, hvalue⟩ := byteText_spec hw value
  obtain ⟨lib', hr, -⟩ := memRead_of_allowed w.memory 0 (memRead_success_iff.1 hok)
  rw [hr] at hshown
  have hload : hexValue (byteText (ByteMem.byteOf value.toNat)
      pageState.cursorState.width.toNat) =
      ByteMem.load w.memory (pageCoreGetCurrentAddress pageState.cursorState)
        pageState.cursorState.width.toNat := by
    obtain rfl : _ = value := by simpa using hshown
    have hlt : ByteMem.load w.memory (pageCoreGetCurrentAddress pageState.cursorState)
        pageState.cursorState.width.toNat < 256 ^ pageState.cursorState.width.toNat :=
      ByteMem.leValue_lt _ _
    have hpow : 256 ^ pageState.cursorState.width.toNat =
        2 ^ (8 * pageState.cursorState.width.toNat) := (Nat.pow_mul 2 8 _).symm
    rw [hvalue, ← hpow, toNat_load hw, Nat.mod_eq_of_lt hlt]
  obtain ⟨status, w', hedit, ⟨-, hsame⟩ | ⟨-, hstored⟩⟩ :=
    editValue_types hpos hw hkeys henter htypes hne hlength.le hdigits
  · rw [hedit]
    exact hsame
  · rw [hedit]
    refine hstored.trans ?_
    rw [hload, ByteMem.store_load]

/-- After an edit that succeeds, its cell reads as the value of the text. -/
theorem read_after_edit (hpos : Positional fw.strHexToUint64)
    (hw : WidthOk pageState.cursorState.width) (hkeys : w.keys = keys ++ enter :: rest)
    (henter : Confirms enter) (htypes : Types keys text) (hne : text ≠ [])
    (hlength : text.length ≤ pageState.cursorState.width.toNat * 2)
    (hdigits : ∀ c ∈ text, isHexDigit c = true) {w' : UefiWorld}
    (hedit : pageMemActionEditValue pageState (uefiAdapters fw) w = (some .success, w'))
    {old value : NxU64} {lib : MemLib}
    (hread : memRead fw.bootServices w'.memLib w'.memory
      (pageCoreGetCurrentAddress pageState.cursorState) pageState.cursorState.width (some old) =
        (efiSuccess, some value, lib)) : value.toNat = hexValue text := by
  have hle := hw.toNat_le
  have hpow : 256 ^ pageState.cursorState.width.toNat =
      2 ^ (8 * pageState.cursorState.width.toNat) := (Nat.pow_mul 2 8 _).symm
  obtain ⟨-, hlt⟩ := hpos.lt hw hne hlength hdigits
  obtain ⟨status, w₁, hedit', ⟨hbad, -⟩ | ⟨-, hstored⟩⟩ :=
    editValue_types hpos hw hkeys henter htypes hne hlength hdigits
  all_goals
    rw [hedit] at hedit'
    obtain ⟨rfl, rfl⟩ : NxStatus.success = status ∧ w' = w₁ := by simpa using hedit'
  · exact absurd rfl hbad
  have hok : (memRead fw.bootServices w'.memLib w'.memory
      (pageCoreGetCurrentAddress pageState.cursorState) pageState.cursorState.width
        (some old)).1 = efiSuccess := by rw [hread]
  obtain ⟨lib', hr, -⟩ := memRead_of_allowed w'.memory old (memRead_success_iff.1 hok)
  rw [hr] at hread
  obtain ⟨rfl, -⟩ : _ = value ∧ lib' = lib := by simpa using hread
  rw [toNat_load hw, hstored, ByteMem.load_store _ _ _ (by omega), Nat.mod_eq_of_lt (hpow ▸ hlt)]

end

/-- **Display and edit are inverse to each other.**  For a supported width, the
    digits `PageCoreFormatValueLE` writes for a value, typed and confirmed, are
    accepted and give the value's low bytes; so an edit with the digits a cell
    shows leaves memory unchanged.  Conversely, after an edit that succeeds, its
    cell reads as a value that is formatted as the text that was typed, in upper
    case and filled up with zeros. -/
theorem display_edit_inverse (fw : Firmware) (hpos : Positional fw.strHexToUint64)
    (width : NxUintn) (hw : WidthOk width) (w : UefiWorld) (keys rest : List EfiInputKey)
    (enter : EfiInputKey) (hkeys : w.keys = keys ++ enter :: rest) (henter : Confirms enter)
    (buffer : List NxChar) (bufferSize : ℕ) (hsize : width.toNat * 2 + 2 ≤ bufferSize)
    (hlen : bufferSize ≤ buffer.length) :
    (∀ value : NxU64,
      Types keys (((cstr (pageCoreFormatValueLE value width buffer bufferSize).1).map
        (BitVec.setWidth 16)).take (width.toNat * 2)) →
      (∃ value' w', tuiReadHex fw (width * 2) w = (some (true, value'), w') ∧
        value'.toNat = value.toNat % 2 ^ (8 * width.toNat) ∧
        pageMemValueFitsWidth value' width = true) ∧
      ∀ pageState : PageMemPageState, pageState.cursorState.width = width →
        (memRead fw.bootServices w.memLib w.memory
          (pageCoreGetCurrentAddress pageState.cursorState) width (some 0)).1 = efiSuccess →
        (memRead fw.bootServices w.memLib w.memory
          (pageCoreGetCurrentAddress pageState.cursorState) width (some 0)).2.1 = some value →
        (pageMemActionEditValue pageState (uefiAdapters fw) w).2.memory = w.memory) ∧
    ∀ text : List NxUiChar, Types keys text → text ≠ [] → text.length ≤ width.toNat * 2 →
      (∀ c ∈ text, isHexDigit c = true) →
      ∀ pageState : PageMemPageState, pageState.cursorState.width = width →
      ∀ w', pageMemActionEditValue pageState (uefiAdapters fw) w = (some .success, w') →
      ∀ old value lib, memRead fw.bootServices w'.memLib w'.memory
        (pageCoreGetCurrentAddress pageState.cursorState) width (some old) =
          (efiSuccess, some value, lib) →
        (cstr (pageCoreFormatValueLE value width buffer bufferSize).1).map (BitVec.setWidth 16) =
          padded (width.toNat * 2) text ++ wide " " := by
  constructor
  · intro value htypes
    rw [formatValue_digits value hsize hlen] at htypes
    constructor
    · obtain ⟨hne, hlength, hdigits, hvalue⟩ := byteText_spec hw value
      obtain ⟨hread, hlt⟩ := hpos.lt hw hne hlength.le hdigits
      obtain ⟨w', hprompt⟩ := tuiReadHex_types hw hkeys henter htypes hlength.le hdigits
      exact ⟨_, w', hprompt, hread.trans hvalue, fitsWidth_of_lt hw (hread ▸ hlt)⟩
    · rintro pageState rfl hok hshown
      exact edit_shown hpos hw hkeys henter htypes hok hshown
  · rintro text htypes hne hlength hdigits pageState rfl w' hedit old value lib hread
    have hvalue := read_after_edit hpos hw hkeys henter htypes hne hlength hdigits hedit hread
    obtain ⟨hupper, hpadded, hsame⟩ := padded_spec hlength hdigits
    obtain ⟨-, hlt⟩ := hpos.lt hw hne hlength hdigits
    rw [formatValue_string value hsize hlen]
    congr 1
    refine upperDigits_unique (byteText_upper _ _) hupper ?_ ?_
    · rw [length_byteText, hpadded]
    · rw [hsame, hexValue_byteText, ByteMem.leValue_byteOf, hvalue, Nat.mod_eq_of_lt hlt]

/-- The firmware of `enterFirmware`, with a `StrHexToUint64` that reads digits. -/
def codecFirmware : Firmware :=
  { enterFirmware with strHexToUint64 := fun text => BitVec.ofNat 64 (hexValue text) }

theorem codecFirmware_positional : Positional codecFirmware.strHexToUint64 := by
  intro text _ hlength hdigits
  have hlt := (hexValue_lt hdigits).trans_le (Nat.pow_le_pow_right (by decide) hlength)
  show (BitVec.ofNat 64 (hexValue text)).toNat = hexValue text
  rw [BitVec.toNat_ofNat, Nat.mod_eq_of_lt (hlt.trans_le (by decide))]

/-- A page full of `0xAA`, and the keys of the text. -/
def codecWorld (text : List NxUiChar) : UefiWorld :=
  { enterWorld with keys := text.map (⟨0, ·⟩) ++ [⟨0, charCarriageReturn⟩] }

theorem types_codecWorld (text : List NxUiChar) : Types (text.map (⟨0, ·⟩)) text where
  noEsc key hkey := by
    obtain ⟨c, -, rfl⟩ := List.mem_map.1 hkey
    exact (by decide : (0 : BitVec 16) ≠ scanEsc)
  chars := by
    rw [List.map_map]
    exact List.map_id _

/-- The cursor on the first word of the page. -/
def codecState : PageMemPageState :=
  { enterState with cursorState := ⟨0x1000, 0, 2⟩ }

/-- The machine after `1aB` has been typed over the word. -/
def codecEdited : UefiWorld :=
  (pageMemActionEditValue codecState (uefiAdapters codecFirmware) (codecWorld (wide "1aB"))).2

/-- The word is then read as `0x1AB`, and shown as `01AB`. -/
theorem display_edit_inverse_typed :
    (memRead codecFirmware.bootServices codecEdited.memLib codecEdited.memory
      (pageCoreGetCurrentAddress codecState.cursorState) 2 (some 0)).2.1 = some 0x1AB ∧
    (cstr (pageCoreFormatValueLE 0x1AB 2 (uninitialized 32) 32).1).map (BitVec.setWidth 16) =
      padded 4 (wide "1aB") ++ wide " " := by
  have hdone : pageMemActionEditValue codecState (uefiAdapters codecFirmware)
      (codecWorld (wide "1aB")) = (some .success, codecEdited) :=
    Prod.ext (by decide +kernel) rfl
  have hvalue : (memRead codecFirmware.bootServices codecEdited.memLib codecEdited.memory
      (pageCoreGetCurrentAddress codecState.cursorState) 2 (some 0)).2.1 = some 0x1AB := by
    decide +kernel
  have hstatus : (memRead codecFirmware.bootServices codecEdited.memLib codecEdited.memory
      (pageCoreGetCurrentAddress codecState.cursorState) 2 (some 0)).1 = efiSuccess := by
    decide +kernel
  have hdigits : ∀ c ∈ wide "1aB", isHexDigit c = true := List.all_eq_true.1 (by decide)
  have hedit := (display_edit_inverse codecFirmware codecFirmware_positional 2 (Or.inr (Or.inl rfl))
    (codecWorld (wide "1aB")) ((wide "1aB").map (⟨0, ·⟩)) [] ⟨0, charCarriageReturn⟩ rfl
    ⟨by decide, rfl⟩ (uninitialized 32) 32 (by decide) (by decide)).2 (wide "1aB")
    (types_codecWorld _) (by decide) (by decide) hdigits codecState rfl codecEdited hdone
  exact ⟨hvalue, hedit 0 0x1AB _ (Prod.ext hstatus (Prod.ext hvalue rfl))⟩

end UefiNexus
