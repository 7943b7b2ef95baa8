/-
  The two lines of the view, in a buffer of any size.

  A line is built by appends that share one position.  `Appended size buffer text s`
  is their common invariant: the position is below the size, the NUL is at the
  position, the characters before it are the text as far as it fits, and no cell
  from `size` on has changed.  An append whose text no longer fits keeps it too.

  * `Append.run_appended`: one append; `runAppends_appended`: any number of them;
  * `lines_bounded`: the information line and the type line.
-/
import UefiNexus.Proof.TypeNames

namespace UefiNexus

open CString

/-! ## Appends -/

/-- The invariant of a builder: `text` is what has been appended so far. -/
structure Appended (size : ℕ) (buffer text : List NxChar) (s : List NxChar × ℕ) : Prop where
  stores : Stores 0 size s text
  pos_lt : s.2 < size
  inside : Inside size buffer s.1

/-- An append of a builder. -/
inductive Append where
  | string (chars : List NxChar)
  | hexFixed (value : NxU64) (digits : ℕ)
  | decimal (value : NxUintn)

/-- What is appended, when there is room. -/
def Append.text : Append → List NxChar
  | .string chars => cstr chars
  | .hexFixed value digits => upperHex digits value.toNat
  | .decimal value => decimalNumeral value.toNat

/-- The function that appends it. -/
def Append.run (size : ℕ) : Append → List NxChar × ℕ → List NxChar × ℕ
  | .string chars, s => asciiAppendString size s chars
  | .hexFixed value digits, s => asciiAppendHexFixed size value digits s
  | .decimal value, s => asciiAppendDecimal size s value

/-- The appends of a builder, in order. -/
def runAppends (size : ℕ) (appends : List Append) (s : List NxChar × ℕ) : List NxChar × ℕ :=
  appends.foldl (fun s append => append.run size s) s

section
variable {size : ℕ} {buffer text : List NxChar} {s : List NxChar × ℕ}

/-- The empty text. -/
theorem Appended.nil (hsize : 0 < size) (hlen : size ≤ buffer.length) :
    Appended size buffer [] (buffer.set 0 0, 0) where
  stores := Stores.nil hsize hlen
  pos_lt := hsize
  inside := (Inside.refl size buffer).set hsize 0

/-- **A character is appended**, or dropped when there is no room for it. -/
theorem asciiAppendChar_appended (h : Appended size buffer text s) (c : NxChar) :
    Appended size buffer (text ++ [c]) (asciiAppendChar size s c) where
  stores := asciiAppendChar_stores h.stores c
  pos_lt := by
    rw [asciiAppendChar]
    split_ifs with hfull
    · exact h.pos_lt
    · exact Nat.lt_of_not_le hfull
  inside := by
    rw [asciiAppendChar]
    split_ifs with hfull
    · exact h.inside
    · exact (h.inside.set h.pos_lt c).set (Nat.lt_of_not_le hfull) 0

theorem foldl_asciiAppendChar_appended :
    ∀ (cs : List NxChar) {s : List NxChar × ℕ} {text : List NxChar}, Appended size buffer text s →
      Appended size buffer (text ++ cs) (cs.foldl (asciiAppendChar size) s)
  | [], s, text, h => by rw [List.append_nil]; exact h
  | c :: cs, s, text, h => by
    have := foldl_asciiAppendChar_appended cs (asciiAppendChar_appended h c)
    rwa [List.append_assoc] at this

/-- The loop of the hexadecimal append writes its digits one by one. -/
theorem asciiAppendHexFixed_eq (value : NxU64) :
    ∀ n (s : List NxChar × ℕ), asciiAppendHexFixed size value n s =
      (hexDigits value n).foldl (asciiAppendChar size) s
  | 0, s => rfl
  | n + 1, s => by
    rw [asciiAppendHexFixed, asciiAppendHexFixed_eq value n]
    rfl

theorem Append.run_eq (append : Append) (s : List NxChar × ℕ) :
    append.run size s = append.text.foldl (asciiAppendChar size) s := by
  cases append with
  | string chars => rfl
  | hexFixed value digits =>
    rw [Append.run, Append.text, asciiAppendHexFixed_eq, hexDigits_eq]
  | decimal value =>
    have hlt : value.toNat < 10 ^ 20 := Nat.lt_trans value.isLt (by decide)
    rw [Append.run, Append.text, asciiAppendDecimal, decimalDigits_eq 20 value (by decide) hlt]

/-- **One append.** -/
theorem Append.run_appended (append : Append) (h : Appended size buffer text s) :
    Appended size buffer (text ++ append.text) (append.run size s) := by
  rw [append.run_eq]
  exact foldl_asciiAppendChar_appended append.text h

/-- **Any number of appends.** -/
theorem runAppends_appended :
    ∀ (appends : List Append) {s : List NxChar × ℕ} {text : List NxChar},
      Appended size buffer text s →
      Appended size buffer (text ++ appends.flatMap Append.text) (runAppends size appends s)
  | [], s, text, h => by
    rw [List.flatMap_nil, List.append_nil]
    exact h
  | append :: appends, s, text, h => by
    have := runAppends_appended appends (append.run_appended h)
    rwa [List.append_assoc] at this

theorem Appended.written (h : Appended size buffer text s) : Written 0 size text buffer s.1 :=
  h.stores.filled.written h.inside h.stores.ends

end

/-! ## The lines -/

/-- The appends of `BuildInfoString`. -/
def infoAppends (cursor : PageMemCursorState) : List Append :=
  [.string (ascii "Addr: "),
    .string (pageCoreFormatAddress (pageCoreGetCurrentAddress cursor) (uninitialized 32) 32),
    .string (ascii "  Offset: "), .hexFixed cursor.offset 2, .string (ascii "  Width: "),
    .decimal cursor.width]

/-- The appends of `BuildPageTypeString`. -/
def pageTypeAppends (pageState : PageMemPageState) : List Append :=
  [.string (ascii "Type: "),
    .string (if pageState.pageHasMemoryDescriptor then
      uefiMemoryTypeFormat pageState.pageUefiMemoryType (uninitialized 32) 32
      else (asciiAppendString 32 ((uninitialized 32).set 0 0, 0) (ascii "Unmapped")).1),
    .string (ascii "  Access: "),
    .string (uefiMemoryAccessFormat pageState.pageAccess (uninitialized 16) 16)]

theorem buildInfoString_eq (pageState : PageMemPageState) (buffer : List NxChar) {size : ℕ}
    (hsize : 0 < size) :
    buildInfoString pageState buffer size =
      (runAppends size (infoAppends pageState.cursorState) (buffer.set 0 0, 0)).1 := by
  rw [buildInfoString, if_neg (Nat.ne_of_gt hsize)]
  rfl

theorem buildPageTypeString_eq (pageState : PageMemPageState) (buffer : List NxChar) {size : ℕ}
    (hsize : 0 < size) :
    buildPageTypeString pageState buffer size =
      (runAppends size (pageTypeAppends pageState) (buffer.set 0 0, 0)).1 := by
  rw [buildPageTypeString, if_neg (Nat.ne_of_gt hsize)]
  rfl

/-- The ideal information line. -/
def infoLine (cursor : PageMemCursorState) : List NxChar :=
  ascii "Addr: 0x" ++ upperHex 16 (cursor.address + cursor.offset).toNat ++
    ascii "  Offset: " ++ upperHex 2 (cursor.offset.toNat % 256) ++
    ascii "  Width: " ++ decimalNumeral cursor.width.toNat

/-- The ideal type line. -/
def pageTypeLine (pageState : PageMemPageState) : List NxChar :=
  ascii "Type: " ++
    (if pageState.pageHasMemoryDescriptor then fullTypeName pageState.pageUefiMemoryType
      else ascii "Unmapped") ++
    ascii "  Access: " ++ accessName pageState.pageAccess

theorem infoAppends_text (cursor : PageMemCursorState) :
    (infoAppends cursor).flatMap Append.text = infoLine cursor := by
  have haddress := formatAddress_string (cursor.address + cursor.offset) (by decide : 19 ≤ 32)
    (le_uninitialized 32)
  have hhead : ascii "Addr: 0x" = cstr (ascii "Addr: ") ++ ascii "0x" := by decide
  have hliteral : cstr (ascii "  Offset: ") = ascii "  Offset: " ∧
      cstr (ascii "  Width: ") = ascii "  Width: " := by
    decide
  have hoffset : upperHex 2 (cursor.offset.toNat % 256) = upperHex 2 cursor.offset.toNat :=
    upperHex_mod 2 _
  rw [infoLine, hoffset, hhead]
  simp only [infoAppends, List.flatMap_cons, List.flatMap_nil, Append.text, haddress,
    hliteral.1, hliteral.2, List.append_nil, List.append_assoc, hexDigits_eq,
    pageCoreGetCurrentAddress]

theorem pageTypeAppends_text (pageState : PageMemPageState) :
    (pageTypeAppends pageState).flatMap Append.text = pageTypeLine pageState := by
  have hliteral : cstr (ascii "Type: ") = ascii "Type: " ∧
      cstr (ascii "  Access: ") = ascii "  Access: " := by
    decide
  rw [pageTypeLine, ← typeName_eq]
  simp only [pageTypeAppends, List.flatMap_cons, List.flatMap_nil, Append.text,
    pageTypeName_string, pageAccess_string, hliteral.1, hliteral.2, List.append_nil,
    List.append_assoc, pageTypeName]

/-- **The two lines** are written in bounds, as far as they fit.  After each of
    their appends the position is below the size, with the NUL at it, and the
    characters before it are the beginning of what was appended so far; so it is
    after any character, string or number that is appended to such a buffer. -/
theorem lines_bounded :
    (∀ (pageState : PageMemPageState) (buffer : List NxChar) (n : ℕ), 1 ≤ n →
      n ≤ buffer.length →
        Written 0 n (infoLine pageState.cursorState) buffer (buildInfoString pageState buffer n) ∧
        Written 0 n (pageTypeLine pageState) buffer (buildPageTypeString pageState buffer n) ∧
        ∀ k,
          Appended n buffer (((infoAppends pageState.cursorState).take k).flatMap Append.text)
            (runAppends n ((infoAppends pageState.cursorState).take k) (buffer.set 0 0, 0)) ∧
          Appended n buffer (((pageTypeAppends pageState).take k).flatMap Append.text)
            (runAppends n ((pageTypeAppends pageState).take k) (buffer.set 0 0, 0))) ∧
    ∀ (n : ℕ) (buffer text : List NxChar) (s : List NxChar × ℕ), Appended n buffer text s →
      (∀ c, Appended n buffer (text ++ [c]) (asciiAppendChar n s c)) ∧
      ∀ append : Append, Appended n buffer (text ++ append.text) (append.run n s) := by
  refine ⟨fun pageState buffer n hn hlen => ?_,
    fun n buffer text s h => ⟨asciiAppendChar_appended h, fun append => append.run_appended h⟩⟩
  have hall : ∀ appends, Appended n buffer (appends.flatMap Append.text)
      (runAppends n appends (buffer.set 0 0, 0)) := fun appends =>
    runAppends_appended appends (Appended.nil hn hlen)
  refine ⟨?_, ?_, fun k => ⟨hall _, hall _⟩⟩
  · rw [buildInfoString_eq pageState buffer hn, ← infoAppends_text]
    exact (hall _).written
  · rw [buildPageTypeString_eq pageState buffer hn, ← pageTypeAppends_text]
    exact (hall _).written

/-- A page without a descriptor. -/
def unmappedState : PageMemPageState :=
  ⟨.viewing, ⟨0x1000, 0x1A, 4⟩, ⟨none⟩, 0, false, ⟨0, 0, false, false, false, false⟩, false⟩

/-- The information line is cut off in the address. -/
theorem lines_bounded_unmapped :
    Written 0 10 (infoLine unmappedState.cursorState) (List.replicate 12 0x55)
      (buildInfoString unmappedState (List.replicate 12 0x55) 10) ∧
    buildInfoString unmappedState (List.replicate 12 0x55) 10 =
      ascii "Addr: 0x0" ++ [0, 0x55, 0x55] ∧
    Appended 10 (List.replicate 12 0x55) [chr 'A']
      (asciiAppendChar 10 ((List.replicate 12 0x55).set 0 0, 0) (chr 'A')) :=
  ⟨(lines_bounded.1 unmappedState _ 10 (by decide) (by decide)).1, by decide +kernel,
    (lines_bounded.2 10 _ [] _ (Appended.nil (by decide) (by decide))).1 (chr 'A')⟩

end UefiNexus
