/-
  The names of the memory types.

  The digits the code writes are the numeral of the value: the decimal one
  (`decimalDigits_eq`) and the upper-case hexadecimal one (`hexDigits_eq`).

  * `fullTypeName type`: the name of the type, with the decimal numeral of a
    type that has no other name;
  * `typeFormat_exact`: `UefiMemoryTypeFormat` writes it in bounds, and with 27
    characters or more the text identifies the type.
-/
import Mathlib.Data.List.Nodup
import UefiNexus.Proof.Texts

namespace UefiNexus

open CString

/-! ## Numerals -/

/-- The decimal numeral of a number. -/
def decimalNumeral (value : ℕ) : List NxChar := ascii (toString value)

/-- The hexadecimal numeral of a number with `n` digits, in upper case. -/
def upperHex (n value : ℕ) : List NxChar :=
  (List.range n).reverse.map fun index => hexChar (value / 16 ^ index % 16)

theorem decimalNumeral_eq (value : ℕ) :
    decimalNumeral value = (Nat.toDigits 10 value).map chr := by
  rw [decimalNumeral, ascii, Nat.toString_eq_ofList_toDigits, String.toList_ofList]

theorem chr_digitChar {d : ℕ} (h : d < 10) :
    chr d.digitChar = BitVec.ofNat 8 ('0'.toNat + d) := by
  rw [chr, Nat.toNat_digitChar_of_lt_ten h]
  rfl

/-- **The decimal digits** of a value are its numeral. -/
theorem decimalDigits_eq {n : ℕ} :
    ∀ (capacity : ℕ) (value : BitVec n), 0 < capacity → value.toNat < 10 ^ capacity →
      (decimalDigits value capacity).reverse = decimalNumeral value.toNat
  | capacity + 1, value, _, hlt => by
    have hdigit : value.toNat % 10 < 10 := Nat.mod_lt _ (by decide)
    have hrest : (BitVec.ofNat n (value.toNat / 10)).toNat = value.toNat / 10 := by
      rw [BitVec.toNat_ofNat]
      exact Nat.mod_eq_of_lt (Nat.lt_of_le_of_lt (Nat.div_le_self _ _) value.isLt)
    rw [decimalDigits, decimalNumeral_eq, Nat.toDigits_eq_if (by decide)]
    by_cases hlast : value.toNat < 10
    · have hzero : BitVec.ofNat n (value.toNat / 10) = 0 := by
        apply BitVec.eq_of_toNat_eq
        rw [hrest, Nat.div_eq_of_lt hlast]
        rfl
      rw [if_pos hlast, if_neg (not_not.2 hzero), List.reverse_singleton, List.map_singleton,
        chr_digitChar hlast, Nat.mod_eq_of_lt hlast]
    · have hmore : BitVec.ofNat n (value.toNat / 10) ≠ 0 := by
        intro hzero
        rw [hzero] at hrest
        have hzero' : (0 : BitVec n).toNat = 0 := BitVec.toNat_zero
        omega
      have hcapacity : 0 < capacity := by
        refine Nat.pos_of_ne_zero ?_
        rintro rfl
        exact hlast (by simpa using hlt)
      have hlt' : (BitVec.ofNat n (value.toNat / 10)).toNat < 10 ^ capacity := by
        rw [hrest]
        exact Nat.div_lt_of_lt_mul (by rwa [Nat.pow_succ, Nat.mul_comm] at hlt)
      rw [if_neg hlast, if_pos hmore, List.reverse_cons, List.map_append, List.map_singleton,
        chr_digitChar hdigit, decimalDigits_eq capacity _ hcapacity hlt', hrest,
        decimalNumeral_eq]

/-- **The hexadecimal digits** of a value are its numeral. -/
theorem hexDigits_eq (value : NxU64) : ∀ n, hexDigits value n = upperHex n value.toNat
  | 0 => rfl
  | n + 1 => by
    have hmask : (0xF : NxU64).toNat = 2 ^ 4 - 1 := rfl
    have hpow : 2 ^ (n * 4) = 16 ^ n := by
      rw [Nat.mul_comm, Nat.pow_mul]
    rw [hexDigits, hexDigits_eq value n, upperHex, upperHex, List.range_succ, List.reverse_append,
      List.reverse_singleton, List.singleton_append, List.map_cons, BitVec.toNat_and,
      BitVec.toNat_ushiftRight, hmask, Nat.and_two_pow_sub_one_eq_mod,
      Nat.shiftRight_eq_div_pow, hpow]

/-- The low digits of a number depend on the number modulo their weight. -/
theorem upperHex_mod (n value : ℕ) : upperHex n (value % 16 ^ n) = upperHex n value := by
  refine List.map_congr_left fun index hindex => congrArg hexChar ?_
  have hlt : index < n := List.mem_range.1 (List.mem_reverse.1 hindex)
  obtain ⟨k, rfl⟩ := Nat.exists_eq_add_of_lt hlt
  rw [Nat.add_assoc, Nat.pow_add, Nat.mod_mul_right_div_self, Nat.pow_succ, Nat.mod_mul_left_mod]

/-- The number a decimal numeral stands for. -/
def numeralValue (text : List NxChar) : ℕ :=
  Nat.ofDigitChars 10 (text.map fun c => Char.ofNat c.toNat) 0

/-- **A numeral stands for its number.** -/
theorem numeralValue_decimalNumeral (value : ℕ) : numeralValue (decimalNumeral value) = value := by
  have hback : ∀ c ∈ Nat.toDigits 10 value,
      ((fun c : NxChar => Char.ofNat c.toNat) ∘ chr) c = id c := by
    intro c hc
    have hdigit := Nat.isDigit_of_mem_toDigits (by decide) (by decide) hc
    have hlt : c.toNat < 256 := by
      have hle : c.val ≤ 57 := by simpa using (Bool.and_eq_true_iff.1 hdigit).2
      have := UInt32.le_iff_toNat_le.1 hle
      exact Nat.lt_of_le_of_lt this (by decide)
    rw [Function.comp_apply, chr, BitVec.toNat_ofNat, Nat.mod_eq_of_lt hlt, Char.ofNat_toNat, id]
  rw [numeralValue, decimalNumeral_eq, List.map_map, List.map_congr_left hback, List.map_id,
    Nat.ofDigitChars_ten_toDigits]

theorem decimalNumeral_injective : Function.Injective decimalNumeral :=
  Function.LeftInverse.injective numeralValue_decimalNumeral

/-! ## Names -/

/-- The name of a memory type: one of the 14 UEFI names, or the numeral of the type. -/
def fullTypeName (type : NxU32) : List NxChar :=
  if h : type.toNat < uefiMemoryTypeNames.length then uefiMemoryTypeNames.get ⟨type.toNat, h⟩
  else ascii "Unknown(" ++ decimalNumeral type.toNat ++ ascii ")"

theorem typeName_eq (type : NxU32) : typeName type = fullTypeName type := by
  have hlt : type.toNat < 10 ^ 10 := Nat.lt_trans type.isLt (by decide)
  rw [typeName, fullTypeName]
  by_cases hnamed : type.toNat < uefiMemoryTypeNames.length
  · rw [dif_pos hnamed, List.getElem?_eq_getElem hnamed]
    rfl
  · rw [dif_neg hnamed, List.getElem?_eq_none (Nat.le_of_not_lt hnamed), Option.getD_none,
      unknownName, decimalDigits_eq 10 type (by decide) hlt, List.append_assoc]

theorem length_decimalNumeral_le {value n : ℕ} (hn : 0 < n) (h : value < 10 ^ n) :
    (decimalNumeral value).length ≤ n := by
  rw [decimalNumeral_eq, List.length_map]
  exact (Nat.length_toDigits_le_iff (by decide) hn).2 h

theorem length_fullTypeName_le (type : NxU32) : (fullTypeName type).length ≤ 26 := by
  have hnames : ∀ name ∈ uefiMemoryTypeNames, name.length ≤ 26 := by decide
  have hlt : type.toNat < 10 ^ 10 := Nat.lt_trans type.isLt (by decide)
  rw [fullTypeName]
  split_ifs with hnamed
  · exact hnames _ (List.get_mem ..)
  · have hhead : (ascii "Unknown(").length = 8 := rfl
    have htail : (ascii ")").length = 1 := rfl
    have hnumeral := length_decimalNumeral_le (by decide) hlt
    rw [List.length_append, List.length_append]
    omega

/-- **A name identifies its type.** -/
theorem fullTypeName_injective : Function.Injective fullTypeName := by
  have hdistinct : uefiMemoryTypeNames.Nodup := by decide
  have hfirst : ∀ name ∈ uefiMemoryTypeNames, name.head? ≠ (ascii "Unknown(").head? := by decide
  have hother : ∀ (name : List NxChar) (value : ℕ), name ∈ uefiMemoryTypeNames →
      name ≠ ascii "Unknown(" ++ decimalNumeral value ++ ascii ")" := by
    rintro name value hname rfl
    exact hfirst _ hname rfl
  intro type type' h
  rw [fullTypeName, fullTypeName] at h
  split_ifs at h with hnamed hnamed' hnamed'
  · have hindex := (List.Nodup.get_inj_iff hdistinct).1 h
    exact BitVec.eq_of_toNat_eq (Fin.mk.inj_iff.1 hindex)
  · exact absurd h (hother _ _ (List.get_mem ..))
  · exact absurd h.symm (hother _ _ (List.get_mem ..))
  · have hnumeral := List.append_cancel_left (List.append_cancel_right h)
    exact BitVec.eq_of_toNat_eq (decimalNumeral_injective hnumeral)

/-- **`UefiMemoryTypeFormat`** writes the name of the type in bounds, as far as it
    fits; with room for 26 characters and the terminator the text identifies the
    type. -/
theorem typeFormat_exact :
    (∀ (type : NxU32) (n : ℕ) (name : List NxChar), 1 ≤ n → n ≤ name.length →
      Written 0 n (fullTypeName type) name (uefiMemoryTypeFormat type name n)) ∧
    ∀ (n n' : ℕ) (name name' : List NxChar) (type type' : NxU32), 27 ≤ n → n ≤ name.length →
      27 ≤ n' → n' ≤ name'.length →
      cstr (uefiMemoryTypeFormat type name n) = cstr (uefiMemoryTypeFormat type' name' n') →
        type = type' := by
  have hstring : ∀ (n : ℕ) (name : List NxChar) (type : NxU32), 27 ≤ n → n ≤ name.length →
      cstr (uefiMemoryTypeFormat type name n) = fullTypeName type := by
    intro n name type hn hlen
    have hfits := length_fullTypeName_le type
    rw [typeFormat_string (by omega) hlen, typeName_eq]
    exact List.take_of_length_le (by omega)
  refine ⟨fun type n name hn hlen => ?_, fun n n' name name' type type' hn hlen hn' hlen' h => ?_⟩
  · rw [← typeName_eq]
    exact typeFormat_written hn hlen type
  · rw [hstring n name type hn hlen, hstring n' name' type' hn' hlen'] at h
    exact fullTypeName_injective h

/-- A name that is cut off inside the numeral, and whole names: of a type that has one of
    the 14 UEFI names, of the last of these types, and of the type after it. -/
theorem typeFormat_exact_cut :
    Written 0 11 (fullTypeName 4096) (List.replicate 12 0x55)
      (uefiMemoryTypeFormat 4096 (List.replicate 12 0x55) 11) ∧
    uefiMemoryTypeFormat 4096 (List.replicate 12 0x55) 11 = ascii "Unknown(40" ++ [0, 0x55] ∧
    uefiMemoryTypeNames.length = 14 ∧
    Written 0 27 (fullTypeName 7) (List.replicate 32 0x55)
      (uefiMemoryTypeFormat 7 (List.replicate 32 0x55) 27) ∧
    cstr (uefiMemoryTypeFormat 7 (List.replicate 32 0x55) 27) = ascii "EfiConventionalMemory" ∧
    cstr (uefiMemoryTypeFormat 13 (List.replicate 27 0x55) 27) = ascii "EfiPalCode" ∧
    cstr (uefiMemoryTypeFormat 14 (List.replicate 28 0x55) 28) = ascii "Unknown(14)" ∧
    cstr (uefiMemoryTypeFormat 13 (List.replicate 27 0x55) 27) ≠
      cstr (uefiMemoryTypeFormat 14 (List.replicate 28 0x55) 28) :=
  ⟨typeFormat_exact.1 4096 11 _ (by decide) (by decide), by decide, rfl,
    typeFormat_exact.1 7 27 _ (by decide) (by decide), by decide, by decide, by decide,
    fun h => absurd (typeFormat_exact.2 27 28 _ _ 13 14 (by decide) (by decide) (by decide)
      (by decide) h) (by decide)⟩

end UefiNexus
