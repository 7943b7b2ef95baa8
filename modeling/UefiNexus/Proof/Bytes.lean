/-
  The text of a byte array (`PageCoreFormatBytes`).

  * `spacedHex bytes`: two digits for each byte, separated by blanks; it can be
    split and read back (`decodeSpaced_spacedHex`);
  * `formatBytes_written`: the code writes the text of the first
    `(ResultSize - 1) / 3` bytes;
  * `formatBytes_exact_iff`: that is as many bytes as the array has room for,
    unless the last of them would end exactly at the end of the array.
-/
import UefiNexus.Proof.Codec
import UefiNexus.Proof.TypeNames

namespace UefiNexus

open CString

/-! ## The text -/

/-- The text of the bytes. -/
def spacedHex (bytes : List NxU8) : List NxChar :=
  [chr ' '].intercalate (bytes.map fun byte => upperHex 2 byte.toNat)

/-- The byte two digits stand for. -/
def decodeDigits (digits : List NxChar) : NxU8 :=
  BitVec.ofNat 8 (hexValue (digits.map (BitVec.setWidth 16)))

/-- The bytes of a text of digits that are separated by blanks. -/
def decodeSpaced (text : List NxChar) : List NxU8 :=
  if text = [] then [] else (text.splitOn (chr ' ')).map decodeDigits

/-- **The hexadecimal numeral** stands for its number, as far as the digits reach. -/
theorem hexValue_upperHex (value : ℕ) :
    ∀ n, hexValue ((upperHex n value).map (BitVec.setWidth 16)) = value % 16 ^ n
  | 0 => (Nat.mod_one value).symm
  | n + 1 => by
    have ih := hexValue_upperHex value n
    have hdigit := (upperDigit_spec (Nat.mod_lt (value / 16 ^ n) (by decide : 0 < 16))).2
    have hcons : (upperHex (n + 1) value).map (BitVec.setWidth 16) =
        upperDigit (value / 16 ^ n % 16) :: (upperHex n value).map (BitVec.setWidth 16) := by
      rw [upperHex, upperHex, List.range_succ, List.reverse_append, List.reverse_singleton]
      rfl
    have hlength : ((upperHex n value).map (BitVec.setWidth 16)).length = n := by
      rw [List.length_map, upperHex, List.length_map, List.length_reverse, List.length_range]
    rw [hexValue] at ih
    rw [hcons, hexValue, List.map_cons, List.reverse_cons, Nat.ofDigits_append, ih, hdigit,
      Nat.ofDigits_singleton, List.length_reverse, List.length_map, hlength, Nat.mod_pow_succ]

theorem decodeDigits_upperHex (byte : NxU8) : decodeDigits (upperHex 2 byte.toNat) = byte := by
  rw [decodeDigits, hexValue_upperHex, Nat.mod_eq_of_lt (show byte.toNat < 16 ^ 2 from byte.isLt),
    BitVec.ofNat_toNat, BitVec.setWidth_eq]

theorem upperHex_plain (n value : ℕ) : ∀ c ∈ upperHex n value, Plain c ∧ c ≠ chr ' ' := by
  have hall : ∀ d < 16, Plain (hexChar d) ∧ hexChar d ≠ chr ' ' := by decide
  intro c hc
  obtain ⟨index, -, rfl⟩ := List.mem_map.1 hc
  exact hall _ (Nat.mod_lt _ (by decide))

/-- **The text can be read back.** -/
theorem decodeSpaced_spacedHex (bytes : List NxU8) : decodeSpaced (spacedHex bytes) = bytes := by
  cases bytes with
  | nil => rfl
  | cons byte bytes =>
    have hne : (byte :: bytes).map (fun byte => upperHex 2 byte.toNat) ≠ [] :=
      List.cons_ne_nil _ _
    have hblank : ∀ l ∈ (byte :: bytes).map (fun byte => upperHex 2 byte.toNat),
        chr ' ' ∉ l := by
      intro l hl hmem
      obtain ⟨b, -, rfl⟩ := List.mem_map.1 hl
      exact (upperHex_plain 2 _ _ hmem).2 rfl
    have hsplit : (spacedHex (byte :: bytes)).splitOn (chr ' ') =
        (byte :: bytes).map fun byte => upperHex 2 byte.toNat :=
      List.splitOn_intercalate (chr ' ') hblank hne
    have htext : spacedHex (byte :: bytes) ≠ [] := by
      intro hnil
      rw [hnil, List.splitOn_nil] at hsplit
      have hfirst := (List.cons.inj hsplit).1
      have hlength := congrArg List.length hfirst
      exact absurd hlength (by simp [upperHex])
    have hback : decodeDigits ∘ (fun byte : NxU8 => upperHex 2 byte.toNat) = id :=
      funext decodeDigits_upperHex
    rw [decodeSpaced, if_neg htext, hsplit, List.map_map, hback, List.map_id]

/-- The text with a blank after every byte, as the loop writes it. -/
def blankedHex (bytes : List NxU8) : List NxChar :=
  bytes.flatMap fun byte => upperHex 2 byte.toNat ++ [chr ' ']

theorem length_blankedHex (bytes : List NxU8) : (blankedHex bytes).length = 3 * bytes.length := by
  induction bytes with
  | nil => rfl
  | cons byte bytes ih =>
    rw [blankedHex] at ih ⊢
    have hthree : (upperHex 2 byte.toNat ++ [chr ' ']).length = 3 := rfl
    rw [List.flatMap_cons, List.length_append, ih, hthree, List.length_cons]
    omega

/-- **Taking back the last blank** leaves the text. -/
theorem blankedHex_dropLast (bytes : List NxU8) : (blankedHex bytes).dropLast = spacedHex bytes := by
  induction bytes with
  | nil => rfl
  | cons byte bytes ih =>
    cases bytes with
    | nil =>
      rw [blankedHex, List.flatMap_cons, List.flatMap_nil, List.append_nil,
        List.dropLast_concat, spacedHex, List.map_singleton, List.intercalate_singleton]
    | cons byte' bytes =>
      have hne : blankedHex (byte' :: bytes) ≠ [] := by
        intro hnil
        have hlength := length_blankedHex (byte' :: bytes)
        rw [hnil] at hlength
        simp at hlength
      have hcons : blankedHex (byte :: byte' :: bytes) =
          (upperHex 2 byte.toNat ++ [chr ' ']) ++ blankedHex (byte' :: bytes) := rfl
      have hspaced : spacedHex (byte :: byte' :: bytes) =
          upperHex 2 byte.toNat ++ [chr ' '] ++ spacedHex (byte' :: bytes) :=
        List.intercalate_cons_cons
      rw [hcons, List.dropLast_append_of_ne_nil hne, ih, hspaced]

theorem length_spacedHex (bytes : List NxU8) :
    (spacedHex bytes).length = 3 * bytes.length - 1 := by
  rw [← blankedHex_dropLast, List.length_dropLast, length_blankedHex]

theorem spacedHex_noNul (bytes : List NxU8) : 0 ∉ spacedHex bytes := by
  have hblank : Plain (chr ' ') := by decide
  refine noNul_of_plain fun c hc => ?_
  rw [← blankedHex_dropLast] at hc
  obtain ⟨byte, -, hbyte⟩ := List.mem_flatMap.1 (List.mem_of_mem_dropLast hc)
  rcases List.mem_append.1 hbyte with hdigit | hsep
  · exact (upperHex_plain 2 _ c hdigit).1
  · rw [List.mem_singleton.1 hsep]
    exact hblank

/-! ## The code -/

theorem formatByte_digits (byte : NxU8) {cell : FormattedCell} (h : 3 ≤ cell.buffer.length) :
    (pageCoreFormatByte byte cell).buffer.length = cell.buffer.length ∧
      [(pageCoreFormatByte byte cell).buffer.getD 0 0,
        (pageCoreFormatByte byte cell).buffer.getD 1 0] = upperHex 2 byte.toNat := by
  have hmask : (0x0F : NxU8).toNat = 2 ^ 4 - 1 := rfl
  have hhigh : ((byte >>> 4) &&& 0x0F).toNat = byte.toNat / 16 ^ 1 % 16 := by
    rw [BitVec.toNat_and, hmask, Nat.and_two_pow_sub_one_eq_mod, BitVec.toNat_ushiftRight,
      Nat.shiftRight_eq_div_pow]
    rfl
  have hlow : (byte &&& 0x0F).toNat = byte.toNat / 16 ^ 0 % 16 := by
    rw [BitVec.toNat_and, hmask, Nat.and_two_pow_sub_one_eq_mod, Nat.pow_zero, Nat.div_one]
  obtain ⟨_ | ⟨a, _ | ⟨b, _ | ⟨c, rest⟩⟩⟩, length⟩ := cell
  · simp at h
  · simp at h
  · simp at h
  · rw [pageCoreFormatByte, hhigh, hlow]
    exact ⟨rfl, rfl⟩

section
variable {resultSize : ℕ} {result : List NxChar}

/-- **The loop** writes the bytes while there is room for a byte, a blank and the
    terminator. -/
theorem putSpacedBytes_filled (hlen : resultSize ≤ result.length) :
    ∀ (bytes : List NxU8) (cell : FormattedCell) (s : List NxChar × ℕ) {text : List NxChar},
      3 ≤ cell.buffer.length → s.2 < resultSize → Inside resultSize result s.1 →
      Filled s.1 s.2 text →
      ∃ k, k = min bytes.length ((resultSize - 1 - s.2) / 3) ∧
        (putSpacedBytes resultSize bytes cell s).2 = s.2 + 3 * k ∧
        Filled (putSpacedBytes resultSize bytes cell s).1 (s.2 + 3 * k)
          (text ++ blankedHex (bytes.take k)) ∧
        Inside resultSize result (putSpacedBytes resultSize bytes cell s).1
  | [], cell, s, text, _, _, hinside, h => by
    refine ⟨0, by simp, rfl, ?_, hinside⟩
    rw [List.take_nil, blankedHex, List.flatMap_nil, List.append_nil]
    exact h
  | byte :: bytes, cell, s, text, hcell, hpos, hinside, h => by
    have hlength := hinside.length
    rw [putSpacedBytes]
    by_cases hroom : s.2 + 3 < resultSize
    · obtain ⟨hcell', hdigits⟩ := formatByte_digits byte hcell
      have hpush := ((h.push (by omega) ((pageCoreFormatByte byte cell).buffer.getD 0 0)).push
        (by rw [List.length_set]; omega) ((pageCoreFormatByte byte cell).buffer.getD 1 0)).push
        (by simp only [List.length_set]; omega) (chr ' ')
      have hnext : text ++ [(pageCoreFormatByte byte cell).buffer.getD 0 0] ++
          [(pageCoreFormatByte byte cell).buffer.getD 1 0] ++ [chr ' '] =
            text ++ (upperHex 2 byte.toNat ++ [chr ' ']) := by
        rw [← hdigits]
        simp only [List.append_assoc, List.cons_append, List.nil_append]
      rw [hnext] at hpush
      have hinside' := ((hinside.set (by omega : s.2 < resultSize)
        ((pageCoreFormatByte byte cell).buffer.getD 0 0)).set (by omega : s.2 + 1 < resultSize)
        ((pageCoreFormatByte byte cell).buffer.getD 1 0)).set (by omega : s.2 + 2 < resultSize)
        (chr ' ')
      obtain ⟨k, hk, hoffset, hfilled, hrest⟩ := putSpacedBytes_filled hlen bytes
        (pageCoreFormatByte byte cell) (_, s.2 + 3) (by omega) hroom hinside' hpush
      have hadd : s.2 + 3 * (k + 1) = s.2 + 3 + 3 * k := by omega
      rw [if_pos hroom]
      refine ⟨k + 1, ?_, ?_, ?_, hrest⟩
      · rw [List.length_cons, hk]
        dsimp only
        omega
      · rw [hadd]
        exact hoffset
      · rw [hadd, List.take_succ_cons, blankedHex, List.flatMap_cons, ← List.append_assoc]
        exact hfilled
    · have hzero : (resultSize - 1 - s.2) / 3 = 0 := by omega
      rw [if_neg hroom, hzero]
      refine ⟨0, (Nat.min_zero _).symm, rfl, ?_, hinside⟩
      rw [List.take_zero, blankedHex, List.flatMap_nil, List.append_nil]
      exact h

/-- **What the code writes**: the text of the first `(ResultSize - 1) / 3` bytes. -/
theorem formatBytes_written (bytes : List NxU8) (hsize : 0 < resultSize)
    (hlen : resultSize ≤ result.length) :
    Written 0 resultSize (spacedHex (bytes.take ((resultSize - 1) / 3))) result
      (pageCoreFormatBytes (some bytes) result resultSize) := by
  obtain ⟨k, hk, hoffset, hfilled, hinside⟩ := putSpacedBytes_filled hlen bytes
    ⟨List.replicate cellStrMax (BitVec.allOnes 8), 0⟩ (result.set 0 0, 0) (by decide) hsize
    ((Inside.refl resultSize result).set hsize 0) (Filled.nil _)
  simp only [Nat.sub_zero, Nat.zero_add, List.nil_append] at hk hoffset hfilled
  have htake : bytes.take k = bytes.take ((resultSize - 1) / 3) := by
    rw [hk, Nat.min_comm, ← List.take_eq_take_min]
  have htrim := hfilled.pop
  have hfits : (spacedHex (bytes.take k)).length ≤ resultSize - 1 := by
    rw [length_spacedHex, List.length_take]
    omega
  rw [blankedHex_dropLast, ← List.take_of_length_le hfits] at htrim
  have hstep : (if 3 * k > 0 ∧ 3 * k < resultSize then 3 * k - 1 else 3 * k) = 3 * k - 1 := by
    split_ifs with htrail
    · rfl
    · omega
  have hclose := htrim.close hsize hlen hinside 0
  rw [pageCoreFormatBytes, if_neg (Nat.ne_of_gt hsize), ← htake]
  simp only [hoffset, hstep]
  exact hclose

end

/-! ## As many bytes as fit -/

/-- The numbers of bytes whose text fits with its NUL. -/
def fittingCounts (bytes : List NxU8) (resultSize : ℕ) : Set ℕ :=
  {k | k ≤ bytes.length ∧ (spacedHex (bytes.take k)).length + 1 ≤ resultSize}

/-- The array holds the text of the first `k` bytes, and `k` is the greatest number
    that fits. -/
structure FormatsBytes (bytes : List NxU8) (result : List NxChar) (resultSize : ℕ)
    (result' : List NxChar) (k : ℕ) : Prop where
  greatest : IsGreatest (fittingCounts bytes resultSize) k
  written : Written 0 resultSize (spacedHex (bytes.take k)) result result'
  string : cstr result' = spacedHex (bytes.take k)
  decoded : decodeSpaced (cstr result') = bytes.take k
  whole : (spacedHex bytes).length + 1 ≤ resultSize → k = bytes.length

theorem mem_fittingCounts {bytes : List NxU8} {resultSize k : ℕ} (hsize : 1 ≤ resultSize) :
    k ∈ fittingCounts bytes resultSize ↔ k ≤ bytes.length ∧ 3 * k ≤ resultSize := by
  rw [fittingCounts, Set.mem_ofPred_eq, length_spacedHex, List.length_take]
  omega

/-- **As many bytes are formatted as fit**, unless the array is used to its last
    character: `ResultSize` is a multiple of three, and the bytes fill it.  Then the
    last byte that fits is dropped. -/
theorem formatBytes_exact_iff (bytes : List NxU8) (result : List NxChar) (resultSize : ℕ)
    (hsize : 1 ≤ resultSize) (hlen : resultSize ≤ result.length) :
    (∃ k, FormatsBytes bytes result resultSize
      (pageCoreFormatBytes (some bytes) result resultSize) k) ↔
      ¬ (3 ∣ resultSize ∧ resultSize ≤ 3 * bytes.length) := by
  have hwritten := formatBytes_written bytes hsize hlen
  have hstring : cstr (pageCoreFormatBytes (some bytes) result resultSize) =
      spacedHex (bytes.take ((resultSize - 1) / 3)) := by
    have hfits : (spacedHex (bytes.take ((resultSize - 1) / 3))).length ≤ resultSize - 1 := by
      rw [length_spacedHex, List.length_take]
      omega
    exact (hwritten.string (spacedHex_noNul _)).trans (List.take_of_length_le hfits)
  constructor
  · rintro ⟨k, h⟩ ⟨hthree, hfull⟩
    obtain ⟨hk, hmax⟩ := h.greatest
    have hle := (mem_fittingCounts hsize).1 hk
    have hthird := hmax ((mem_fittingCounts hsize).2
      (by omega : resultSize / 3 ≤ bytes.length ∧ 3 * (resultSize / 3) ≤ resultSize))
    have hlength := congrArg List.length (hstring.symm.trans h.string)
    rw [length_spacedHex, length_spacedHex, List.length_take, List.length_take] at hlength
    omega
  · intro hroom
    have htake : bytes.take (min ((resultSize - 1) / 3) bytes.length) =
        bytes.take ((resultSize - 1) / 3) := List.take_eq_take_min.symm
    refine ⟨min ((resultSize - 1) / 3) bytes.length, ⟨?_, fun j hj => ?_⟩, ?_, ?_, ?_, fun hfits => ?_⟩
    · exact (mem_fittingCounts hsize).2 (by omega)
    · have hj' := (mem_fittingCounts hsize).1 hj
      omega
    · rw [htake]
      exact hwritten
    · rw [htake]
      exact hstring
    · rw [hstring, htake]
      exact decodeSpaced_spacedHex _
    · rw [length_spacedHex] at hfits
      omega

/-- Three bytes in a roomy array. -/
theorem formatBytes_exact_roomy :
    ∃ k, FormatsBytes [0xDE, 0xAD, 0xBE] (List.replicate 32 0x55) 32
      (pageCoreFormatBytes (some [0xDE, 0xAD, 0xBE]) (List.replicate 32 0x55) 32) k :=
  (formatBytes_exact_iff [0xDE, 0xAD, 0xBE] (List.replicate 32 0x55) 32 (by decide)
    (by decide)).2 (by decide)

/-- **One byte in an array of three characters**: its text and the NUL fit, but
    nothing is written. -/
theorem formatBytes_drops :
    pageCoreFormatBytes (some [0xDE]) [0x55, 0x55, 0x55] 3 = [0, 0x55, 0x55] ∧
    (spacedHex [0xDE]).length + 1 ≤ 3 ∧
    ¬ ∃ k, FormatsBytes [0xDE] [0x55, 0x55, 0x55] 3
      (pageCoreFormatBytes (some [0xDE]) [0x55, 0x55, 0x55] 3) k := by
  have hvalue : pageCoreFormatBytes (some [0xDE]) [0x55, 0x55, 0x55] 3 = [0, 0x55, 0x55] := by
    decide
  refine ⟨hvalue, by decide, ?_⟩
  rintro ⟨k, h⟩
  have hwhole : k = 1 := h.whole (by decide)
  have hstring := h.string
  rw [hvalue, hwhole] at hstring
  exact absurd hstring (by decide)

end UefiNexus
