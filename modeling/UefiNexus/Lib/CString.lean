/-
  Strings built in character arrays.

  `Filled buffer pos text`: the cells of the array before the position `pos` are
  the text; a character is appended by writing it at `pos` (`Filled.push`).  If
  the next cell is the terminator, the text is the string of the array
  (`Filled.string`).  A loop that writes a text so and leaves room for the
  terminator is `fill`.

  `Stores nul size (buffer, pos) text`: the first `size` cells of the array hold
  the text, or the part of it that leaves room for the terminator.  This is kept
  by appending a character that is dropped when there is no room
  (`Stores.append`), so an array built so holds the beginning of the whole text.

  `Written nul size text buffer buffer'`: the whole of a bounded write.  No cell
  from `size` on has changed (`Inside`), and the cells before it begin with the
  text, as far as it fits, and the terminator.
-/
import Mathlib.Tactic.Basic
import Mathlib.Data.Nat.Notation

namespace CString

variable {α : Type} {nul c : α} {buffer text : List α} {pos size : ℕ}

/-- The first `pos` cells of the array are the text. -/
structure Filled (buffer : List α) (pos : ℕ) (text : List α) : Prop where
  take : buffer.take pos = text
  le : pos ≤ buffer.length

theorem Filled.length (h : Filled buffer pos text) : text.length = pos := by
  rw [← h.take, List.length_take, Nat.min_eq_left h.le]

theorem Filled.nil (buffer : List α) : Filled buffer 0 [] := ⟨rfl, Nat.zero_le _⟩

/-- A write at or after the position. -/
theorem Filled.set (h : Filled buffer pos text) {i : ℕ} (hi : pos ≤ i) (x : α) :
    Filled (buffer.set i x) pos text where
  take := by rw [List.take_set_of_le hi, h.take]
  le := by rw [List.length_set]; exact h.le

/-- **A character is appended** by writing it at the position. -/
theorem Filled.push (h : Filled buffer pos text) (hpos : pos < buffer.length) (c : α) :
    Filled (buffer.set pos c) (pos + 1) (text ++ [c]) where
  take := by
    rw [List.take_add_one, List.take_set_of_le (Nat.le_refl _), h.take, List.getElem?_set_self hpos]
    rfl
  le := by rw [List.length_set]; exact hpos

/-- The last character is taken back by stepping back. -/
theorem Filled.pop (h : Filled buffer pos text) : Filled buffer (pos - 1) text.dropLast where
  take := by
    rw [← h.take, List.dropLast_eq_take, List.take_take, List.length_take, Nat.min_eq_left h.le,
      Nat.min_eq_left (Nat.sub_le _ _)]
  le := Nat.le_trans (Nat.sub_le _ _) h.le

/-- **The text before a terminator** is the string of the array. -/
theorem Filled.string [DecidableEq α] (h : Filled buffer pos text) (hnul : nul ∉ text)
    (hat : buffer[pos]? = some nul) : buffer.takeWhile (· ≠ nul) = text := by
  obtain ⟨hlt, hget⟩ := List.getElem?_eq_some_iff.1 hat
  have hsplit : buffer = text ++ nul :: buffer.drop (pos + 1) := by
    rw [← h.take, ← hget, ← List.drop_eq_getElem_cons hlt, List.take_append_drop]
  have hpass : ∀ c ∈ text, decide (c ≠ nul) = true := by
    intro c hc
    simpa using fun heq : c = nul => hnul (heq ▸ hc)
  rw [hsplit, List.takeWhile_append_of_pos hpass, List.takeWhile_cons_of_neg (by simp),
    List.append_nil]

/-- No cell from `size` on has changed. -/
structure Inside (size : ℕ) (buffer buffer' : List α) : Prop where
  length : buffer'.length = buffer.length
  drop : buffer'.drop size = buffer.drop size

theorem Inside.refl (size : ℕ) (buffer : List α) : Inside size buffer buffer := ⟨rfl, rfl⟩

/-- A write to one of the first `size` cells. -/
theorem Inside.set {buffer' : List α} (h : Inside size buffer buffer') {i : ℕ} (hi : i < size)
    (x : α) : Inside size buffer (buffer'.set i x) where
  length := by rw [List.length_set, h.length]
  drop := by rw [List.drop_set_of_lt hi, h.drop]

/-- **A text is written in bounds**: as far as it fits, with its terminator. -/
structure Written (nul : α) (size : ℕ) (text buffer buffer' : List α) : Prop where
  inside : Inside size buffer buffer'
  filled : Filled buffer' (min (size - 1) text.length) (text.take (size - 1))
  ends : buffer'[min (size - 1) text.length]? = some nul

theorem Filled.written {buffer' : List α} (h : Filled buffer' pos (text.take (size - 1)))
    (hinside : Inside size buffer buffer') (hends : buffer'[pos]? = some nul) :
    Written nul size text buffer buffer' := by
  have hpos := h.length
  rw [List.length_take] at hpos
  rw [← hpos] at h hends
  exact ⟨hinside, h, hends⟩

/-- The terminator is written. -/
theorem Filled.close {buffer' : List α} (h : Filled buffer' pos (text.take (size - 1)))
    (hsize : 0 < size) (hlen : size ≤ buffer.length) (hinside : Inside size buffer buffer')
    (nul : α) : Written nul size text buffer (buffer'.set pos nul) := by
  have hlength := hinside.length
  have hpos := h.length
  rw [List.length_take] at hpos
  exact (h.set (Nat.le_refl _) nul).written (hinside.set (by omega) nul)
    (List.getElem?_set_self (by omega))

/-- The string of the array is the text, as far as it fits. -/
theorem Written.string [DecidableEq α] {buffer' : List α}
    (h : Written nul size text buffer buffer') (hnul : nul ∉ text) :
    buffer'.takeWhile (· ≠ nul) = text.take (size - 1) :=
  h.filled.string (fun hmem => hnul (List.mem_of_mem_take hmem)) h.ends

/-- The loop that writes a text from the position on, as far as there is room for
    the terminator; the array and the position after it. -/
def fill (size : ℕ) : List α → ℕ → List α → List α × ℕ
  | [], pos, buffer => (buffer, pos)
  | c :: cs, pos, buffer =>
    if pos + 1 < size then fill size cs (pos + 1) (buffer.set pos c) else (buffer, pos)

/-- **A loop that writes a text** appends what there is room for. -/
theorem fill_filled :
    ∀ (cs : List α) {pos : ℕ} {buffer text : List α}, pos + 1 ≤ size → size ≤ buffer.length →
      Filled buffer pos text →
      Filled (fill size cs pos buffer).1 (fill size cs pos buffer).2
        (text ++ cs.take (size - 1 - pos)) ∧
      (fill size cs pos buffer).2 + 1 ≤ size ∧
      (fill size cs pos buffer).1.length = buffer.length
  | [], pos, buffer, text, hpos, hlen, h => by
    rw [List.take_nil, List.append_nil]
    exact ⟨h, hpos, rfl⟩
  | c :: cs, pos, buffer, text, hpos, hlen, h => by
    rw [fill]
    by_cases hroom : pos + 1 < size
    · have hset : size ≤ (buffer.set pos c).length := by
        rw [List.length_set]
        exact hlen
      obtain ⟨hfilled, hnext, hlength⟩ := fill_filled cs hroom hset (h.push (by omega) c)
      have htake : size - 1 - pos = size - 1 - (pos + 1) + 1 := by omega
      rw [List.append_assoc] at hfilled
      rw [List.length_set] at hlength
      rw [if_pos hroom, htake, List.take_succ_cons]
      exact ⟨hfilled, hnext, hlength⟩
    · have htake : size - 1 - pos = 0 := by omega
      rw [if_neg hroom, htake, List.take_zero, List.append_nil]
      exact ⟨h, hpos, rfl⟩

/-- The texts of two loops, one after the other. -/
theorem fill_append :
    ∀ (cs ds : List α) (pos : ℕ) (buffer : List α),
      fill size (cs ++ ds) pos buffer =
        fill size ds (fill size cs pos buffer).2 (fill size cs pos buffer).1
  | [], ds, pos, buffer => rfl
  | c :: cs, ds, pos, buffer => by
    rw [List.cons_append, fill, fill]
    by_cases hroom : pos + 1 < size
    · rw [if_pos hroom, if_pos hroom, fill_append cs ds (pos + 1) (buffer.set pos c)]
    · rw [if_neg hroom, if_neg hroom]
      cases ds with
      | nil => rfl
      | cons d ds => rw [fill, if_neg hroom]

theorem fill_inside :
    ∀ (cs : List α) (pos : ℕ) {buffer buffer' : List α}, Inside size buffer buffer' →
      Inside size buffer (fill size cs pos buffer').1
  | [], _, _, _, h => h
  | c :: cs, pos, buffer, buffer', h => by
    rw [fill]
    by_cases hroom : pos + 1 < size
    · rw [if_pos hroom]
      exact fill_inside cs (pos + 1) (h.set (by omega) c)
    · rw [if_neg hroom]
      exact h

/-- **A text that is written and terminated.** -/
theorem fill_written (cs : List α) (hsize : 0 < size) (hlen : size ≤ buffer.length) (nul : α) :
    Written nul size cs buffer ((fill size cs 0 buffer).1.set (fill size cs 0 buffer).2 nul) := by
  have hfilled := (fill_filled cs hsize hlen (Filled.nil buffer)).1
  rw [List.nil_append, Nat.sub_zero] at hfilled
  exact hfilled.close hsize hlen (fill_inside cs 0 (Inside.refl size buffer)) nul

/-- The first `size` cells hold the text, as far as it fits with a terminator. -/
structure Stores (nul : α) (size : ℕ) (s : List α × ℕ) (text : List α) : Prop where
  size_le : size ≤ s.1.length
  filled : Filled s.1 s.2 (text.take (size - 1))
  ends : s.1[s.2]? = some nul

/-- The empty text. -/
theorem Stores.nil (hsize : 0 < size) (hle : size ≤ buffer.length) :
    Stores nul size (buffer.set 0 nul, 0) [] where
  size_le := by rw [List.length_set]; exact hle
  filled := by rw [List.take_nil]; exact Filled.nil _
  ends := List.getElem?_set_self (by omega)

/-- **A character is appended** if there is room for it. -/
theorem Stores.append {s : List α × ℕ} (h : Stores nul size s text) (c : α) :
    Stores nul size
      (if s.2 + 1 ≥ size then s else ((s.1.set s.2 c).set (s.2 + 1) nul, s.2 + 1))
      (text ++ [c]) := by
  have hlen := h.filled.length
  have hsize := h.size_le
  rw [List.length_take] at hlen
  by_cases hfull : s.2 + 1 ≥ size
  · rw [if_pos hfull]
    refine ⟨hsize, ?_, h.ends⟩
    rw [List.take_append_of_le_length (by omega)]
    exact h.filled
  · rw [if_neg hfull]
    have hlt : s.2 < s.1.length := by omega
    have hshort : (text ++ [c]).length ≤ size - 1 := by
      rw [List.length_append, List.length_singleton]
      omega
    have hfit : (text ++ [c]).take (size - 1) = text.take (size - 1) ++ [c] := by
      rw [List.take_of_length_le hshort, List.take_of_length_le (by omega : text.length ≤ size - 1)]
    refine ⟨?_, ?_, ?_⟩
    · simp only [List.length_set]; exact hsize
    · rw [hfit]
      exact (h.filled.push hlt c).set (Nat.le_refl _) nul
    · refine List.getElem?_set_self ?_
      rw [List.length_set]
      omega

/-- The string of the array is the text, as far as it fits. -/
theorem Stores.string [DecidableEq α] {s : List α × ℕ} (h : Stores nul size s text)
    (hnul : nul ∉ text) : s.1.takeWhile (· ≠ nul) = text.take (size - 1) :=
  h.filled.string (fun hmem => hnul (List.mem_of_mem_take hmem)) h.ends

end CString
