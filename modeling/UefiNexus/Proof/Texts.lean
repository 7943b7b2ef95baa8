/-
  The texts of the view.

  Each builder of the view fills a character array from its first cell on, so
  its string is known: the address (`formatAddress_string`), a cell
  (`formatCell_string`), the information line (`infoString_string`), the type
  line (`pageTypeString_string`), the prefix of a row.  A line that is too long
  for its array is cut off.  What is shown is the string character by character,
  up to the capacity of the wide array (`widened_eq`).

  None of these texts has a control character or a `%`.
-/
import Mathlib.Data.List.TakeWhile
import UefiNexus.Lib.CString
import UefiNexus.Proof.Access
import UefiNexus.Proof.Terminal
import UefiNexus.PageMem.View

namespace UefiNexus

open CString

/-! ## Characters and digits -/

theorem noNul_of_plain {v : ℕ} {text : List (BitVec v)} (h : ∀ c ∈ text, Plain c) : 0 ∉ text := by
  intro hmem
  have hle := (h 0 hmem).1.1
  simp at hle

/-- A literal is checked character by character. -/
theorem plain_of_all {v : ℕ} {text : List (BitVec v)}
    (h : text.all (fun c => decide (Plain c)) = true) : ∀ c ∈ text, Plain c :=
  fun c hc => of_decide_eq_true (List.all_eq_true.1 h c hc)

theorem cstr_noNul {v : ℕ} (buffer : List (BitVec v)) : 0 ∉ cstr buffer := by
  intro hmem
  have := List.all_eq_true.1 List.all_takeWhile 0 hmem
  simp at this

theorem hexChar_plain {i : ℕ} (h : i < 16) : Plain (hexChar i) := by
  have hall : ∀ i < 16, Plain (hexChar i) := by decide
  exact hall i h

/-- The `n` low hexadecimal digits, most significant first. -/
def hexDigits (value : NxU64) : ℕ → List NxChar
  | 0 => []
  | index + 1 => hexChar ((value >>> (index * 4)) &&& 0xF).toNat :: hexDigits value index

theorem length_hexDigits (value : NxU64) : ∀ n, (hexDigits value n).length = n
  | 0 => rfl
  | n + 1 => by rw [hexDigits, List.length_cons, length_hexDigits value n]

theorem hexDigits_plain (value : NxU64) : ∀ n, ∀ c ∈ hexDigits value n, Plain c
  | 0 => fun c hc => absurd hc List.not_mem_nil
  | n + 1 => by
    have hlt : ((value >>> (n * 4)) &&& 0xF).toNat < 16 :=
      Nat.lt_of_le_of_lt Nat.and_le_right (by decide)
    exact List.forall_mem_cons.2 ⟨hexChar_plain hlt, hexDigits_plain value n⟩

theorem decimalDigits_plain {v : ℕ} (value : BitVec v) :
    ∀ capacity, ∀ c ∈ decimalDigits value capacity, Plain c
  | 0 => fun c hc => absurd hc List.not_mem_nil
  | capacity + 1 => by
    have hdigit : ∀ k < 10, Plain (BitVec.ofNat 8 ('0'.toNat + k)) := by decide
    have hfirst := hdigit (value.toNat % 10) (Nat.mod_lt _ (by decide))
    rw [decimalDigits]
    split_ifs
    · exact List.forall_mem_cons.2 ⟨hfirst, decimalDigits_plain _ capacity⟩
    · exact List.forall_mem_singleton.2 hfirst

theorem length_decimalDigits_le {v : ℕ} (value : BitVec v) :
    ∀ capacity, (decimalDigits value capacity).length ≤ capacity
  | 0 => Nat.le_refl 0
  | capacity + 1 => by
    rw [decimalDigits]
    split_ifs
    · exact Nat.succ_le_succ (length_decimalDigits_le _ capacity)
    · exact Nat.succ_le_succ (Nat.zero_le _)

/-! ## Appending -/

section
variable {size : ℕ} {s : List NxChar × ℕ} {text : List NxChar}

theorem asciiAppendChar_stores (h : Stores 0 size s text) (c : NxChar) :
    Stores 0 size (asciiAppendChar size s c) (text ++ [c]) := h.append c

theorem foldl_asciiAppendChar_stores :
    ∀ (cs : List NxChar) {s : List NxChar × ℕ} {text : List NxChar}, Stores 0 size s text →
      Stores 0 size (cs.foldl (asciiAppendChar size) s) (text ++ cs)
  | [], s, text, h => by rw [List.append_nil]; exact h
  | c :: cs, s, text, h => by
    have := foldl_asciiAppendChar_stores cs (asciiAppendChar_stores h c)
    rwa [List.append_assoc] at this

theorem asciiAppendString_stores (h : Stores 0 size s text) (string : List NxChar) :
    Stores 0 size (asciiAppendString size s string) (text ++ cstr string) :=
  foldl_asciiAppendChar_stores _ h

theorem asciiAppendHexFixed_stores (value : NxU64) :
    ∀ n {s : List NxChar × ℕ} {text : List NxChar}, Stores 0 size s text →
      Stores 0 size (asciiAppendHexFixed size value n s) (text ++ hexDigits value n)
  | 0, s, text, h => by rw [hexDigits, List.append_nil]; exact h
  | n + 1, s, text, h => by
    have := asciiAppendHexFixed_stores value n (asciiAppendChar_stores h
      (hexChar ((value >>> (n * 4)) &&& 0xF).toNat))
    rwa [List.append_assoc] at this

theorem asciiAppendDecimal_stores (h : Stores 0 size s text) (value : NxUintn) :
    Stores 0 size (asciiAppendDecimal size s value) (text ++ (decimalDigits value 20).reverse) :=
  foldl_asciiAppendChar_stores _ h

end

/-! ## Filling -/

theorem le_uninitialized {n : ℕ} (size : ℕ) :
    size ≤ (uninitialized size : List (BitVec n)).length :=
  Nat.le_of_eq (List.length_replicate ..).symm

/-- `PageCoreFormatAddress` writes `0x` and sixteen digits. -/
theorem putAddressDigits_filled (address : NxU64) :
    ∀ n index {buffer text : List NxChar}, index + n = 16 → 18 ≤ buffer.length →
      Filled buffer (index + 2) text →
      Filled (putAddressDigits address n index buffer) 18 (text ++ hexDigits address n) ∧
      (putAddressDigits address n index buffer).length = buffer.length
  | 0, index, buffer, text, hn, hlen, h => by
    obtain rfl : index = 16 := by omega
    rw [hexDigits, List.append_nil]
    exact ⟨h, rfl⟩
  | n + 1, index, buffer, text, hn, hlen, h => by
    have hshift : 15 - index = n := by omega
    have hpush := h.push (by omega) (hexChar ((address >>> ((15 - index) * 4)) &&& 0x0F).toNat)
    rw [Nat.add_right_comm] at hpush
    obtain ⟨hfilled, hlength⟩ := putAddressDigits_filled address n (index + 1) (by omega)
      (by rw [List.length_set]; exact hlen) hpush
    rw [List.append_assoc, hshift] at hfilled
    rw [putAddressDigits, hshift]
    rw [hshift, List.length_set] at hlength
    exact ⟨hfilled, hlength⟩

theorem addressText_plain (address : NxU64) :
    ∀ c ∈ ascii "0x" ++ hexDigits address 16, Plain c :=
  List.forall_mem_append.2 ⟨plain_of_all (by decide), hexDigits_plain address 16⟩

theorem formatAddress_string (address : NxU64) {buffer : List NxChar} {bufferSize : ℕ}
    (hsize : 19 ≤ bufferSize) (hlen : bufferSize ≤ buffer.length) :
    cstr (pageCoreFormatAddress address buffer bufferSize) =
      ascii "0x" ++ hexDigits address 16 := by
  have hstart : Filled ((buffer.set 0 (chr '0')).set 1 (chr 'x')) (0 + 2) (ascii "0x") := by
    refine ((Filled.nil buffer).push (by omega) (chr '0')).push ?_ (chr 'x')
    rw [List.length_set]
    omega
  obtain ⟨hfilled, hlength⟩ := putAddressDigits_filled address 16 0 rfl
    (by simp only [List.length_set]; omega) hstart
  simp only [List.length_set] at hlength
  rw [pageCoreFormatAddress, if_neg (by omega)]
  exact (hfilled.set (Nat.le_refl _) 0).string (noNul_of_plain (addressText_plain address))
    (List.getElem?_set_self (by omega))

/-- The digits of the bytes `byteAt (n - 1), …, byteAt 0`. -/
def hexBytes (byteAt : ℕ → NxU8) : ℕ → List NxChar
  | 0 => []
  | n + 1 =>
    hexChar ((byteAt n >>> 4) &&& 0x0F).toNat :: hexChar (byteAt n &&& 0x0F).toNat ::
      hexBytes byteAt n

theorem length_hexBytes (byteAt : ℕ → NxU8) : ∀ n, (hexBytes byteAt n).length = n * 2
  | 0 => rfl
  | n + 1 => by
    rw [hexBytes, List.length_cons, List.length_cons, length_hexBytes byteAt n]
    omega

theorem hexBytes_plain (byteAt : ℕ → NxU8) : ∀ n, ∀ c ∈ hexBytes byteAt n, Plain c
  | 0 => fun c hc => absurd hc List.not_mem_nil
  | n + 1 => by
    have hdigit : ∀ x : NxU8, Plain (hexChar (x &&& 0x0F).toNat) := fun x =>
      hexChar_plain (Nat.lt_of_le_of_lt Nat.and_le_right (by decide))
    exact List.forall_mem_cons.2 ⟨hdigit _, List.forall_mem_cons.2 ⟨hdigit _,
      hexBytes_plain byteAt n⟩⟩

theorem putHexBytes_filled (byteAt : ℕ → NxU8) :
    ∀ n {s : List NxChar × ℕ} {text : List NxChar}, s.2 + n * 2 ≤ s.1.length →
      Filled s.1 s.2 text →
      Filled (putHexBytes byteAt n s).1 (s.2 + n * 2) (text ++ hexBytes byteAt n) ∧
      (putHexBytes byteAt n s).2 = s.2 + n * 2 ∧
      (putHexBytes byteAt n s).1.length = s.1.length
  | 0, s, text, hlen, h => by
    rw [hexBytes, List.append_nil]
    exact ⟨h, rfl, rfl⟩
  | n + 1, s, text, hlen, h => by
    have hpush : Filled (putHexByte (byteAt n) s).1 (s.2 + 2)
        (text ++ [hexChar ((byteAt n >>> 4) &&& 0x0F).toNat] ++
          [hexChar (byteAt n &&& 0x0F).toNat]) := by
      refine (h.push (by omega) _).push ?_ _
      rw [List.length_set]
      omega
    have hlength : (putHexByte (byteAt n) s).1.length = s.1.length := by
      simp only [putHexByte, List.length_set]
    have hnext : s.2 + (n + 1) * 2 = s.2 + 2 + n * 2 := by omega
    have hroom : s.2 + 2 + n * 2 ≤ (putHexByte (byteAt n) s).1.length := by omega
    obtain ⟨hfilled, hpos, hlength'⟩ :=
      putHexBytes_filled byteAt n (s := putHexByte (byteAt n) s) hroom hpush
    rw [List.append_assoc, List.append_assoc] at hfilled
    rw [hnext]
    exact ⟨hfilled, hpos, hlength'.trans hlength⟩

theorem cellBytes_plain (byteAt : ℕ → NxU8) (n : ℕ) :
    ∀ c ∈ hexBytes byteAt n ++ ascii " ", Plain c :=
  List.forall_mem_append.2 ⟨hexBytes_plain byteAt n, plain_of_all (by decide)⟩

/-- A cell is its bytes, and a blank. -/
theorem formatCell_string (byteAt : ℕ → NxU8) {width : NxUintn} {buffer : List NxChar}
    {bufferSize : ℕ} (hsize : width.toNat * 2 + 2 ≤ bufferSize) (hlen : bufferSize ≤ buffer.length) :
    cstr (formatCell byteAt width buffer bufferSize).1 =
      hexBytes byteAt width.toNat ++ ascii " " := by
  obtain ⟨hfilled, hpos, hlength⟩ := putHexBytes_filled byteAt width.toNat
    (s := (buffer.set 0 0, 0)) (by simp only [List.length_set]; omega) (Filled.nil _)
  simp only [List.length_set, Nat.zero_add, List.nil_append] at hfilled hpos hlength
  rw [formatCell, if_neg (by omega), if_neg (by omega)]
  simp only [hpos]
  refine ((hfilled.push (by omega) (chr ' ')).set (Nat.le_refl _) 0).string
    (noNul_of_plain (cellBytes_plain byteAt _)) (List.getElem?_set_self ?_)
  rw [List.length_set]
  omega

theorem putPlaceholders_filled :
    ∀ n {pos : ℕ} {buffer text : List NxUiChar}, pos + n ≤ buffer.length →
      Filled buffer pos text →
      Filled (putPlaceholders n pos buffer) (pos + n) (text ++ List.replicate n (L '?')) ∧
      (putPlaceholders n pos buffer).length = buffer.length
  | 0, pos, buffer, text, hlen, h => by
    rw [List.replicate_zero, List.append_nil]
    exact ⟨h, rfl⟩
  | n + 1, pos, buffer, text, hlen, h => by
    have hroom : pos + 1 + n ≤ (buffer.set pos (L '?')).length := by
      rw [List.length_set]
      omega
    obtain ⟨hfilled, hlength⟩ := putPlaceholders_filled n hroom (h.push (by omega) (L '?'))
    rw [List.append_assoc] at hfilled
    rw [List.length_set] at hlength
    have hnext : pos + (n + 1) = pos + 1 + n := by omega
    rw [hnext, List.replicate_succ]
    exact ⟨hfilled, hlength⟩

theorem placeholders_plain (n : ℕ) : ∀ c ∈ List.replicate n (L '?') ++ wide " ", Plain c := by
  have hmark : Plain (L '?') := by decide
  refine List.forall_mem_append.2 ⟨?_, plain_of_all (by decide)⟩
  intro c hc
  rw [List.eq_of_mem_replicate hc]
  exact hmark

/-- The placeholders of a cell, and a blank. -/
theorem invalidCell_string {width : NxUintn} {buffer : List NxUiChar} {bufferSize : ℕ}
    (hsize : width.toNat * 2 + 2 ≤ bufferSize) (hlen : bufferSize ≤ buffer.length) :
    cstr (buildInvalidCellString width buffer bufferSize) =
      List.replicate (width.toNat * 2) (L '?') ++ wide " " := by
  obtain ⟨hfilled, hlength⟩ := putPlaceholders_filled (width.toNat * 2)
    (by omega) (Filled.nil buffer)
  simp only [Nat.zero_add, List.nil_append] at hfilled
  rw [buildInvalidCellString, if_neg (by omega)]
  refine ((hfilled.push (by omega) (L ' ')).set (Nat.le_refl _) 0).string
    (noNul_of_plain (placeholders_plain _)) (List.getElem?_set_self ?_)
  rw [List.length_set]
  omega

/-! ## Copies -/

theorem asciiToChar16Loop_eq_fill (wideCapacity : ℕ) :
    ∀ (cs : List NxChar) (index : ℕ) (buffer : List NxUiChar),
      asciiToChar16Loop wideCapacity cs index buffer =
        fill wideCapacity (cs.map (BitVec.setWidth 16)) index buffer
  | [], index, buffer => rfl
  | c :: cs, index, buffer => by
    rw [asciiToChar16Loop, asciiToChar16Loop_eq_fill wideCapacity cs]
    rfl

theorem widen_plain {text : List NxChar} (h : ∀ c ∈ text, Plain c) :
    ∀ c ∈ text.map (BitVec.setWidth 16), Plain c := by
  intro c hc
  obtain ⟨d, hd, rfl⟩ := List.mem_map.1 hc
  have hplain := h d hd
  have hsame : (d.setWidth 16).toNat = d.toNat := by
    rw [BitVec.toNat_setWidth]
    exact Nat.mod_eq_of_lt (by omega)
  simp only [Plain, Printable, hsame]
  exact hplain

/-- **The wide copy** of a string has the same characters, up to the capacity. -/
theorem widened_eq (text : List NxChar) {wideCapacity : ℕ} (hcapacity : 0 < wideCapacity) :
    widened text wideCapacity =
      ((cstr text).map (BitVec.setWidth 16)).take (wideCapacity - 1) := by
  rw [widened, asciiToChar16, if_neg (Nat.ne_of_gt hcapacity)]
  simp only [asciiToChar16Loop_eq_fill]
  refine (fill_written _ hcapacity (le_uninitialized _) 0).string fun h => ?_
  obtain ⟨c, hc, hzero⟩ := List.mem_map.1 h
  have hc0 : c = 0 := by bv_omega
  rw [hc0] at hc
  exact cstr_noNul text hc

theorem widened_plain {text : List NxChar} (h : ∀ c ∈ cstr text, Plain c) {wideCapacity : ℕ}
    (hcapacity : 0 < wideCapacity) : ∀ c ∈ widened text wideCapacity, Plain c := by
  intro c hc
  rw [widened_eq text hcapacity] at hc
  exact widen_plain h c (List.mem_of_mem_take hc)

theorem copyStringLoop_eq_fill (destinationSize : ℕ) :
    ∀ (cs : List NxChar) (index : ℕ) (destination : List NxChar),
      copyStringLoop destinationSize cs index destination =
        fill destinationSize cs index destination
  | [], index, destination => rfl
  | c :: cs, index, destination => by
    rw [copyStringLoop, copyStringLoop_eq_fill destinationSize cs]
    rfl

theorem cstr_of_plain {v : ℕ} {text : List (BitVec v)} (h : ∀ c ∈ text, Plain c) :
    cstr text = text := by
  have hpass : ∀ c ∈ text, decide (c ≠ 0) = true := by
    intro c hc
    simpa using fun heq : c = 0 => noNul_of_plain h (heq ▸ hc)
  exact List.takeWhile_eq_self_iff.2 hpass

section
variable {buffer : List NxChar} {bufferSize : ℕ} (hsize : 0 < bufferSize)
  (hlen : bufferSize ≤ buffer.length)
include hsize hlen

/-- `CopyString` writes the source in bounds. -/
theorem copyString_written (source : List NxChar) :
    Written 0 bufferSize (cstr source) buffer (copyString buffer bufferSize source) := by
  rw [copyString, if_neg (Nat.ne_of_gt hsize)]
  simp only [copyStringLoop_eq_fill]
  exact fill_written _ hsize hlen 0

theorem copyString_string (source : List NxChar) :
    cstr (copyString buffer bufferSize source) = (cstr source).take (bufferSize - 1) :=
  (copyString_written hsize hlen source).string (cstr_noNul source)

end

/-! ## Memory types and access -/

theorem putUnknownDigits_eq_fill (bufferSize : ℕ) :
    ∀ (cs : List NxChar) (s : List NxChar × ℕ),
      putUnknownDigits bufferSize cs s = fill bufferSize cs s.2 s.1
  | [], s => rfl
  | c :: cs, s => by
    rw [putUnknownDigits, putUnknownDigits_eq_fill bufferSize cs]
    rfl

/-- The name of a memory type that has none. -/
def unknownName (type : NxU32) : List NxChar :=
  ascii "Unknown(" ++ ((decimalDigits type 10).reverse ++ ascii ")")

/-- The name of a memory type. -/
def typeName (type : NxU32) : List NxChar :=
  (uefiMemoryTypeNames[type.toNat]?).getD (unknownName type)

theorem typeName_spec (type : NxU32) :
    (∀ c ∈ typeName type, Plain c) ∧ (typeName type).length ≤ 31 := by
  have hnames : ∀ name ∈ uefiMemoryTypeNames,
      name.all (fun c => decide (Plain c)) = true ∧ name.length ≤ 31 := by
    decide
  rcases hname : uefiMemoryTypeNames[type.toNat]? with _ | name
  · rw [typeName, hname, Option.getD_none, unknownName]
    have hle := length_decimalDigits_le type 10
    refine ⟨List.forall_mem_append.2 ⟨plain_of_all (by decide), List.forall_mem_append.2 ⟨?_,
      plain_of_all (by decide)⟩⟩, ?_⟩
    · intro c hc
      exact decimalDigits_plain type 10 c (List.mem_reverse.1 hc)
    · have hhead : (ascii "Unknown(").length = 8 := rfl
      have htail : (ascii ")").length = 1 := rfl
      rw [List.length_append, List.length_append, List.length_reverse]
      omega
  · rw [typeName, hname, Option.getD_some]
    obtain ⟨hplain, hle⟩ := hnames name (List.mem_of_getElem? hname)
    exact ⟨plain_of_all hplain, hle⟩

section
variable {buffer : List NxChar} {bufferSize : ℕ} (hsize : 0 < bufferSize)
  (hlen : bufferSize ≤ buffer.length)
include hsize hlen

/-- `FormatUnknownType` writes the name in bounds. -/
theorem formatUnknownType_written (type : NxU32) :
    Written 0 bufferSize (unknownName type) buffer (formatUnknownType type buffer bufferSize) := by
  have hhead : cstr (ascii "Unknown(") = ascii "Unknown(" :=
    cstr_of_plain (plain_of_all (by decide))
  have height : (ascii "Unknown(").length = 8 := rfl
  obtain ⟨hinside, hfilled, -⟩ := copyString_written hsize hlen (ascii "Unknown(")
  have hlength := hinside.length
  rw [hhead, height] at hfilled
  rw [formatUnknownType, if_neg (Nat.ne_of_gt hsize)]
  dsimp only
  by_cases hshort : 8 ≥ bufferSize
  · have hpos : min (bufferSize - 1) 8 = bufferSize - 1 := by omega
    have htake : (unknownName type).take (bufferSize - 1) =
        (ascii "Unknown(").take (bufferSize - 1) :=
      List.take_append_of_le_length (by omega)
    rw [hpos, ← htake] at hfilled
    rw [if_pos hshort]
    exact hfilled.close hsize hlen hinside 0
  · have hpos : min (bufferSize - 1) 8 = 8 := by omega
    have hall : (ascii "Unknown(").take (bufferSize - 1) = ascii "Unknown(" :=
      List.take_of_length_le (by omega)
    rw [hpos, hall] at hfilled
    have hrest := (fill_filled ((decimalDigits type 10).reverse ++ ascii ")")
      (by omega : 8 + 1 ≤ bufferSize) (by omega) hfilled).1
    have htake : (unknownName type).take (bufferSize - 1) = ascii "Unknown(" ++
        ((decimalDigits type 10).reverse ++ ascii ")").take (bufferSize - 1 - 8) := by
      rw [unknownName, List.take_append, hall, height]
    rw [← htake] at hrest
    have hwritten := hrest.close hsize hlen (fill_inside _ 8 hinside) 0
    rw [fill_append] at hwritten
    rw [if_neg hshort, putUnknownDigits_eq_fill]
    exact hwritten

/-- **`UefiMemoryTypeFormat`** writes the name of the type in bounds. -/
theorem typeFormat_written (type : NxU32) :
    Written 0 bufferSize (typeName type) buffer (uefiMemoryTypeFormat type buffer bufferSize) := by
  have hplain := (typeName_spec type).1
  rcases hname : uefiMemoryTypeNames[type.toNat]? with _ | name
  · rw [typeName, hname, uefiMemoryTypeFormat, hname]
    exact formatUnknownType_written hsize hlen type
  · rw [typeName, hname, Option.getD_some] at hplain ⊢
    rw [uefiMemoryTypeFormat, hname]
    have := copyString_written hsize hlen name
    rwa [cstr_of_plain hplain] at this

theorem typeFormat_string (type : NxU32) :
    cstr (uefiMemoryTypeFormat type buffer bufferSize) = (typeName type).take (bufferSize - 1) :=
  (typeFormat_written hsize hlen type).string (noNul_of_plain (typeName_spec type).1)

end

/-- The text of an access. -/
def accessName (access : NxMemoryAccess) : List NxChar :=
  if ¬ access.accessKnown then ascii "Unknown"
  else if access.readAllowed then if access.writeAllowed then ascii "R/W" else ascii "R/-"
  else if access.writeAllowed then ascii "-/W"
  else ascii "--"

theorem accessName_spec (access : NxMemoryAccess) :
    (∀ c ∈ accessName access, Plain c) ∧ (accessName access).length ≤ 15 := by
  rw [accessName]
  split_ifs
  all_goals exact ⟨plain_of_all (by decide), by decide⟩

theorem accessFormat_string (access : NxMemoryAccess) {buffer : List NxChar} {bufferSize : ℕ}
    (hsize : 0 < bufferSize) (hlen : bufferSize ≤ buffer.length) :
    cstr (uefiMemoryAccessFormat access buffer bufferSize) =
      (accessName access).take (bufferSize - 1) := by
  have hcopy : ∀ text, (∀ c ∈ text, Plain c) →
      cstr (copyString buffer bufferSize text) = text.take (bufferSize - 1) := by
    intro text hplain
    rw [copyString_string hsize hlen, cstr_of_plain hplain]
  rw [uefiMemoryAccessFormat, if_neg (Nat.ne_of_gt hsize), accessName]
  split_ifs
  all_goals exact hcopy _ (plain_of_all (by decide))

/-! ## The lines -/

/-- The information line. -/
def infoText (cursor : PageMemCursorState) : List NxChar :=
  ascii "Addr: " ++ (ascii "0x" ++ hexDigits (pageCoreGetCurrentAddress cursor) 16) ++
    ascii "  Offset: " ++ hexDigits cursor.offset 2 ++ ascii "  Width: " ++
    (decimalDigits cursor.width 20).reverse

theorem infoText_plain (cursor : PageMemCursorState) : ∀ c ∈ infoText cursor, Plain c := by
  simp only [infoText, List.forall_mem_append]
  refine ⟨⟨⟨⟨⟨plain_of_all (by decide), plain_of_all (by decide), hexDigits_plain _ 16⟩,
    plain_of_all (by decide)⟩, hexDigits_plain _ 2⟩, plain_of_all (by decide)⟩, ?_⟩
  exact fun c hc => decimalDigits_plain _ 20 c (List.mem_reverse.1 hc)

theorem infoString_string (pageState : PageMemPageState) {buffer : List NxChar} {bufferSize : ℕ}
    (hsize : 0 < bufferSize) (hlen : bufferSize ≤ buffer.length) :
    cstr (buildInfoString pageState buffer bufferSize) =
      (infoText pageState.cursorState).take (bufferSize - 1) := by
  have haddress := formatAddress_string (pageCoreGetCurrentAddress pageState.cursorState)
    (by decide : 19 ≤ 32) (le_uninitialized 32)
  have hliteral : cstr (ascii "Addr: ") = ascii "Addr: " ∧
      cstr (ascii "  Offset: ") = ascii "  Offset: " ∧
      cstr (ascii "  Width: ") = ascii "  Width: " := by
    decide
  have h := asciiAppendString_stores (Stores.nil hsize hlen) (ascii "Addr: ")
  have h := asciiAppendString_stores h
    (pageCoreFormatAddress (pageCoreGetCurrentAddress pageState.cursorState) (uninitialized 32) 32)
  have h := asciiAppendString_stores h (ascii "  Offset: ")
  have h := asciiAppendHexFixed_stores pageState.cursorState.offset 2 h
  have h := asciiAppendString_stores h (ascii "  Width: ")
  have h := asciiAppendDecimal_stores h pageState.cursorState.width
  rw [haddress, hliteral.1, hliteral.2.1, hliteral.2.2, List.nil_append] at h
  rw [buildInfoString, if_neg (Nat.ne_of_gt hsize)]
  exact h.string (noNul_of_plain (infoText_plain _))

/-- The name of the type of the page. -/
def pageTypeName (pageState : PageMemPageState) : List NxChar :=
  if pageState.pageHasMemoryDescriptor then typeName pageState.pageUefiMemoryType
  else ascii "Unmapped"

/-- The type line. -/
def typeText (pageState : PageMemPageState) : List NxChar :=
  ascii "Type: " ++ pageTypeName pageState ++ ascii "  Access: " ++ accessName pageState.pageAccess

theorem typeText_plain (pageState : PageMemPageState) : ∀ c ∈ typeText pageState, Plain c := by
  simp only [typeText, List.forall_mem_append]
  refine ⟨⟨⟨plain_of_all (by decide), ?_⟩, plain_of_all (by decide)⟩, (accessName_spec _).1⟩
  rw [pageTypeName]
  split_ifs
  · exact (typeName_spec _).1
  · exact plain_of_all (by decide)

/-- The name of the type, as `BuildPageTypeString` has it in its array. -/
theorem pageTypeName_string (pageState : PageMemPageState) :
    cstr (if pageState.pageHasMemoryDescriptor then
      uefiMemoryTypeFormat pageState.pageUefiMemoryType (uninitialized 32) 32
      else (asciiAppendString 32 ((uninitialized 32).set 0 0, 0) (ascii "Unmapped")).1) =
      pageTypeName pageState := by
  rw [pageTypeName]
  split_ifs
  · rw [typeFormat_string (by decide) (le_uninitialized _)]
    exact List.take_of_length_le (typeName_spec _).2
  · decide

/-- The text of the access, as `BuildPageTypeString` has it in its array. -/
theorem pageAccess_string (access : NxMemoryAccess) :
    cstr (uefiMemoryAccessFormat access (uninitialized 16) 16) = accessName access := by
  rw [accessFormat_string _ (by decide) (le_uninitialized _)]
  exact List.take_of_length_le (accessName_spec _).2

theorem pageTypeString_string (pageState : PageMemPageState) {buffer : List NxChar}
    {bufferSize : ℕ} (hsize : 0 < bufferSize) (hlen : bufferSize ≤ buffer.length) :
    cstr (buildPageTypeString pageState buffer bufferSize) =
      (typeText pageState).take (bufferSize - 1) := by
  have hliteral : cstr (ascii "Type: ") = ascii "Type: " ∧
      cstr (ascii "  Access: ") = ascii "  Access: " := by
    decide
  have h := asciiAppendString_stores (Stores.nil hsize hlen) (ascii "Type: ")
  have h := asciiAppendString_stores h (if pageState.pageHasMemoryDescriptor then
    uefiMemoryTypeFormat pageState.pageUefiMemoryType (uninitialized 32) 32
    else (asciiAppendString 32 ((uninitialized 32).set 0 0, 0) (ascii "Unmapped")).1)
  have h := asciiAppendString_stores h (ascii "  Access: ")
  have h := asciiAppendString_stores h
    (uefiMemoryAccessFormat pageState.pageAccess (uninitialized 16) 16)
  rw [pageTypeName_string, pageAccess_string, hliteral.1, hliteral.2, List.nil_append] at h
  rw [buildPageTypeString, if_neg (Nat.ne_of_gt hsize)]
  exact h.string (noNul_of_plain (typeText_plain _))

theorem rowPrefix_plain (offset : NxU64) : ∀ c ∈ hexDigits offset 2 ++ ascii ":", Plain c :=
  List.forall_mem_append.2 ⟨hexDigits_plain offset 2, plain_of_all (by decide)⟩

/-- The prefix of a row. -/
theorem rowPrefix_string (offset : NxU64) {buffer : List NxChar} {bufferSize : ℕ}
    (hsize : 0 < bufferSize) (hlen : bufferSize ≤ buffer.length) :
    cstr (buildRowPrefixString offset buffer bufferSize) =
      (hexDigits offset 2 ++ ascii ":").take (bufferSize - 1) := by
  have h := asciiAppendHexFixed_stores offset 2 (Stores.nil hsize hlen)
  have h := asciiAppendString_stores h (ascii ":")
  rw [List.nil_append] at h
  rw [buildRowPrefixString, if_neg (Nat.ne_of_gt hsize)]
  exact h.string (noNul_of_plain (rowPrefix_plain offset))

/-! ## The cells -/

theorem cellStrMax_ge {width : NxUintn} (h : WidthOk width) : width.toNat * 2 + 2 ≤ cellStrMax := by
  have hle := h.toNat_le
  simp only [cellStrMax]
  omega

/-- What `DrawCell` shows of a value that was read. -/
theorem cellText_of_read {width : NxUintn} (h : WidthOk width) {status : NxStatus}
    (hstatus : nxUiError status = false) (value : NxU64) :
    cellText width status value =
      (hexBytes (fun index => ((value >>> (index * 8)) &&& 0xFF).setWidth 8) width.toNat ++
        ascii " ").map (BitVec.setWidth 16) := by
  have hsize := cellStrMax_ge h
  rw [cellText, if_pos (by rw [hstatus]; exact Bool.false_ne_true), widened_eq _ (by decide),
    pageCoreFormatValueLE, formatCell_string _ hsize (le_uninitialized _)]
  refine List.take_of_length_le ?_
  have hone : (ascii " ").length = 1 := rfl
  rw [List.length_map, List.length_append, length_hexBytes]
  omega

/-- What `DrawCell` shows when the read failed. -/
theorem cellText_of_error {width : NxUintn} (h : WidthOk width) {status : NxStatus}
    (hstatus : nxUiError status = true) (value : NxU64) :
    cellText width status value = List.replicate (width.toNat * 2) (L '?') ++ wide " " := by
  rw [cellText, if_neg (not_not.2 hstatus),
    invalidCell_string (cellStrMax_ge h) (le_uninitialized _)]

/-- The text of a cell has two characters for each byte, and a blank. -/
theorem cellText_spec {width : NxUintn} (h : WidthOk width) (status : NxStatus) (value : NxU64) :
    (∀ c ∈ cellText width status value, Plain c) ∧
      (cellText width status value).length = width.toNat * 2 + 1 := by
  rcases hstatus : nxUiError status with _ | _
  · rw [cellText_of_read h hstatus]
    refine ⟨widen_plain (cellBytes_plain _ _), ?_⟩
    rw [List.length_map, List.length_append, length_hexBytes]
    rfl
  · rw [cellText_of_error h hstatus]
    refine ⟨placeholders_plain _, ?_⟩
    rw [List.length_append, List.length_replicate]
    rfl

end UefiNexus
