/-
  A text terminal, and what is painted on it.

  A `Grid χ α` is a screen of characters `χ` with attributes `α`: the cells by
  row and column, the attribute in use, and the position of the next character.
  A text is put on one row; it does not wrap.

  A `Stroke` is a text with the place and the attribute it is put with.  The
  cells after a list of strokes (`paintAll`) are, at each position, the last
  stroke that covers it.  So a position does not depend on the strokes that do
  not cover it (`paintAll_apart`), and if the strokes that cover it agree there,
  it shows what they do (`paintAll_eq`).  `ShowsText` reads a text back from a
  place on the screen, and `Edited` says that a line has been typed and erased
  there character by character.
-/
import Mathlib.Tactic.Basic
import Mathlib.Tactic.ByContra
import Mathlib.Tactic.SplitIfs
import Mathlib.Data.Nat.Notation

/-- The cells of a screen by row and column; `none`: nothing has been put there
    since the screen was cleared. -/
abbrev Cells (χ α : Type) := ℕ → ℕ → Option (χ × α)

/-- A text terminal. -/
structure Grid (χ α : Type) where
  cells : Cells χ α
  attr : α
  row : ℕ
  column : ℕ

/-- A text put on the screen. -/
structure Stroke (χ α : Type) where
  row : ℕ
  column : ℕ
  text : List χ
  attr : α

variable {χ α ι : Type}

namespace Stroke

/-- What the stroke shows at a position. -/
def shows (s : Stroke χ α) (row column : ℕ) : Option (χ × α) :=
  if row = s.row ∧ s.column ≤ column then s.text[column - s.column]?.map (·, s.attr) else none

/-- The position is on the stroke. -/
def Covers (s : Stroke χ α) (row column : ℕ) : Prop :=
  row = s.row ∧ s.column ≤ column ∧ column < s.column + s.text.length

theorem shows_eq_none {s : Stroke χ α} {row column : ℕ} (h : ¬ s.Covers row column) :
    s.shows row column = none := by
  simp only [shows]
  split_ifs with hat
  · have hlen : s.text.length ≤ column - s.column := by
      by_contra hlt
      exact h ⟨hat.1, hat.2, by omega⟩
    rw [List.getElem?_eq_none hlen]
    rfl
  · rfl

/-- The character at a position does not depend on the attribute. -/
theorem map_fst_shows (s : Stroke χ α) (row column : ℕ) :
    (s.shows row column).map Prod.fst =
      if row = s.row ∧ s.column ≤ column then s.text[column - s.column]? else none := by
  unfold shows
  split_ifs
  · cases s.text[column - s.column]? <;> rfl
  · rfl

theorem shows_isSome {s : Stroke χ α} {row column : ℕ} (h : s.Covers row column) :
    (s.shows row column).isSome := by
  obtain ⟨hrow, hle, hlt⟩ := h
  have hlen : column - s.column < s.text.length := by omega
  simp only [shows, if_pos (And.intro hrow hle), List.getElem?_eq_getElem hlen, Option.map_some,
    Option.isSome_some]

theorem attr_of_shows {s : Stroke χ α} {row column : ℕ} {x : χ × α}
    (h : s.shows row column = some x) : x.2 = s.attr := by
  unfold shows at h
  split_ifs at h
  obtain ⟨c, -, rfl⟩ := Option.map_eq_some_iff.1 h
  rfl

end Stroke

namespace Grid

/-- The screen without any text. -/
def blank : Cells χ α := fun _ _ => none

/-- The cells with a stroke on top. -/
def paint (cells : Cells χ α) (s : Stroke χ α) : Cells χ α :=
  fun row column => (s.shows row column).or (cells row column)

/-- The cells with strokes on top of each other, the last one uppermost. -/
def paintAll (cells : Cells χ α) (ss : List (Stroke χ α)) : Cells χ α := ss.foldl paint cells

def clear (g : Grid χ α) : Grid χ α := { g with cells := blank, row := 0, column := 0 }

def setAttr (attr : α) (g : Grid χ α) : Grid χ α := { g with attr := attr }

def moveTo (column row : ℕ) (g : Grid χ α) : Grid χ α := { g with row := row, column := column }

/-- Put a text at the position, with the attribute in use. -/
def put (text : List χ) (g : Grid χ α) : Grid χ α :=
  { g with
    cells := paint g.cells ⟨g.row, g.column, text, g.attr⟩
    column := g.column + text.length }

/-! ## Putting texts -/

theorem put_nil (g : Grid χ α) : g.put [] = g := by
  have hcells : paint g.cells ⟨g.row, g.column, [], g.attr⟩ = g.cells := by
    funext row column
    rw [paint, Stroke.shows_eq_none, Option.none_or]
    rintro ⟨-, hle, hlt⟩
    exact absurd hlt (Nat.not_lt.2 hle)
  simp only [put, hcells, List.length_nil, Nat.add_zero]

/-- Putting two texts one after the other. -/
theorem put_append (s t : List χ) (g : Grid χ α) : g.put (s ++ t) = (g.put s).put t := by
  have hcells : paint g.cells ⟨g.row, g.column, s ++ t, g.attr⟩ =
      paint (paint g.cells ⟨g.row, g.column, s, g.attr⟩)
        ⟨g.row, g.column + s.length, t, g.attr⟩ := by
    funext row column
    simp only [paint, Stroke.shows, List.getElem?_append]
    by_cases hfirst : row = g.row ∧ g.column ≤ column
    · by_cases hs : column - g.column < s.length
      · have hsecond : ¬ (row = g.row ∧ g.column + s.length ≤ column) := by omega
        rw [if_pos hfirst, if_neg hsecond, if_pos hfirst, if_pos hs]
        rfl
      · have hsecond : row = g.row ∧ g.column + s.length ≤ column := by omega
        rw [if_pos hfirst, if_pos hsecond, if_pos hfirst, if_neg hs,
          List.getElem?_eq_none (Nat.not_lt.1 hs), Nat.sub_add_eq]
        rfl
    · have hsecond : ¬ (row = g.row ∧ g.column + s.length ≤ column) := by omega
      rw [if_neg hfirst, if_neg hsecond, if_neg hfirst]
      rfl
  simp only [put, hcells, List.length_append, Nat.add_assoc]

/-! ## Painting -/

theorem paintAll_append (cells : Cells χ α) (ss ts : List (Stroke χ α)) :
    paintAll cells (ss ++ ts) = paintAll (paintAll cells ss) ts :=
  List.foldl_append ..

theorem paintAll_cons (cells : Cells χ α) (s : Stroke χ α) (ss : List (Stroke χ α)) :
    paintAll cells (s :: ss) = paintAll (paint cells s) ss := rfl

/-- A position under strokes depends on what was there alone. -/
theorem paintAll_or (row column : ℕ) (ss : List (Stroke χ α)) :
    ∀ cells : Cells χ α,
      paintAll cells ss row column = (paintAll blank ss row column).or (cells row column) := by
  induction ss with
  | nil => intro cells; rfl
  | cons s ss ih =>
    intro cells
    rw [paintAll_cons, paintAll_cons, ih (paint cells s), ih (paint blank s)]
    show _ = ((paintAll blank ss row column).or ((s.shows row column).or none)).or _
    rw [Option.or_none, Option.or_assoc]
    rfl

/-- Strokes that do not cover a position leave it alone. -/
theorem paintAll_apart {row column : ℕ} {ss : List (Stroke χ α)} :
    ∀ {cells : Cells χ α}, (∀ s ∈ ss, ¬ s.Covers row column) →
      paintAll cells ss row column = cells row column := by
  induction ss with
  | nil => intros; rfl
  | cons s ss ih =>
    intro cells h
    rw [paintAll_cons, ih fun t ht => h t (List.mem_cons_of_mem _ ht), paint,
      Stroke.shows_eq_none (h s (List.mem_cons_self ..)), Option.none_or]

/-- A position shows `x` if all strokes that cover it do, and one covers it or it
    showed `x` before. -/
theorem paintAll_eq {row column : ℕ} {x : Option (χ × α)} {ss : List (Stroke χ α)} :
    ∀ {cells : Cells χ α}, (∀ s ∈ ss, s.Covers row column → s.shows row column = x) →
      (cells row column = x ∨ ∃ s ∈ ss, s.Covers row column) →
      paintAll cells ss row column = x := by
  induction ss with
  | nil =>
    rintro cells - (h | ⟨s, hs, -⟩)
    · exact h
    · cases hs
  | cons t ss ih =>
    intro cells hsame hsome
    have hsame' := fun u hu => hsame u (List.mem_cons_of_mem t hu)
    rw [paintAll_cons]
    by_cases ht : t.Covers row column
    · refine ih hsame' (Or.inl ?_)
      obtain ⟨y, hy⟩ := Option.isSome_iff_exists.1 (Stroke.shows_isSome ht)
      rw [paint, hy, Option.some_or, ← hy]
      exact hsame t (List.mem_cons_self ..) ht
    · refine ih hsame' ?_
      obtain h | ⟨s, hs, hcovers⟩ := hsome
      · left
        rw [paint, Stroke.shows_eq_none ht, Option.none_or]
        exact h
      · obtain rfl | hs := List.mem_cons.1 hs
        · exact absurd hcovers ht
        · exact Or.inr ⟨s, hs, hcovers⟩

/-- An attribute appears at a position only if a stroke that covers it has it, or it
    was there before. -/
theorem paintAll_attr_ne {row column : ℕ} {attr : α} {ss : List (Stroke χ α)} :
    ∀ {cells : Cells χ α}, (∀ s ∈ ss, s.Covers row column → s.attr ≠ attr) →
      (cells row column).map Prod.snd ≠ some attr →
      (paintAll cells ss row column).map Prod.snd ≠ some attr := by
  induction ss with
  | nil => exact fun _ h => h
  | cons s ss ih =>
    intro cells hss hcells
    refine ih (fun t ht => hss t (List.mem_cons_of_mem s ht)) ?_
    by_cases hs : s.Covers row column
    · obtain ⟨x, hx⟩ := Option.isSome_iff_exists.1 (Stroke.shows_isSome hs)
      have hattr := hss s (List.mem_cons_self ..) hs
      rw [paint, hx, Option.some_or, Option.map_some, Stroke.attr_of_shows hx]
      exact fun h => hattr (Option.some.inj h)
    · rw [paint, Stroke.shows_eq_none hs, Option.none_or]
      exact hcells

/-- A position that strokes cover does not show what was there before. -/
theorem paintAll_covered {row column : ℕ} {ss : List (Stroke χ α)} :
    ∀ {cells cells' : Cells χ α}, (∃ s ∈ ss, s.Covers row column) →
      paintAll cells ss row column = paintAll cells' ss row column := by
  induction ss with
  | nil => rintro _ _ ⟨s, hs, -⟩; cases hs
  | cons t ss ih =>
    rintro cells cells' ⟨s, hs, hcovers⟩
    rw [paintAll_cons, paintAll_cons]
    by_cases hlater : ∃ s ∈ ss, s.Covers row column
    · exact ih hlater
    · have ht : t.Covers row column := by
        obtain rfl | hs := List.mem_cons.1 hs
        · exact hcovers
        · exact absurd ⟨s, hs, hcovers⟩ hlater
      obtain ⟨x, hx⟩ := Option.isSome_iff_exists.1 (Stroke.shows_isSome ht)
      rw [paintAll_or, paintAll_or _ _ _ (paint cells' t), paint, paint, hx, Option.some_or,
        Option.some_or]

/-- Painting over strokes that cover no other positions. -/
theorem paintAll_over {row column : ℕ} {ss ts : List (Stroke χ α)} {cells : Cells χ α}
    (h : ∀ s ∈ ss, s.Covers row column → ∃ t ∈ ts, t.Covers row column) :
    paintAll (paintAll cells ss) ts row column = paintAll cells ts row column := by
  by_cases hcovered : ∃ t ∈ ts, t.Covers row column
  · exact paintAll_covered hcovered
  · have hts : ∀ t ∈ ts, ¬ t.Covers row column := fun t ht hc => hcovered ⟨t, ht, hc⟩
    have hss : ∀ s ∈ ss, ¬ s.Covers row column := fun s hs hc => hcovered (h s hs hc)
    rw [paintAll_apart hts, paintAll_apart hts, paintAll_apart hss]

/-- Strokes that do not cover a position may be left out before others. -/
theorem paintAll_append_left {row column : ℕ} {ss ts : List (Stroke χ α)} {cells : Cells χ α}
    (h : ∀ s ∈ ss, ¬ s.Covers row column) :
    paintAll cells (ss ++ ts) row column = paintAll cells ts row column := by
  rw [paintAll_append]
  exact paintAll_over fun s hs hc => absurd hc (h s hs)

/-- Strokes that do not cover a position may be left out after others. -/
theorem paintAll_append_right {row column : ℕ} {ss ts : List (Stroke χ α)} {cells : Cells χ α}
    (h : ∀ t ∈ ts, ¬ t.Covers row column) :
    paintAll cells (ss ++ ts) row column = paintAll cells ss row column := by
  rw [paintAll_append, paintAll_apart h]

/-- Passes over the same indices whose strokes show the same at a position. -/
theorem paintAll_flatMap_congr {row column : ℕ} {f g : ι → List (Stroke χ α)} {is : List ι}
    (h : ∀ i ∈ is, ∀ cells, paintAll cells (f i) row column = paintAll cells (g i) row column) :
    ∀ cells, paintAll cells (is.flatMap f) row column = paintAll cells (is.flatMap g) row column := by
  induction is with
  | nil => intro cells; rfl
  | cons i is ih =>
    intro cells
    rw [List.flatMap_cons, List.flatMap_cons, paintAll_append, paintAll_append,
      paintAll_or, paintAll_or _ _ (is.flatMap g), h i (List.mem_cons_self ..),
      ih fun j hj => h j (List.mem_cons_of_mem _ hj)]

/-! ## Texts on the screen -/

/-- The cells show the text at a place, in whatever attributes. -/
def ShowsText (cells : Cells χ α) (row column : ℕ) (text : List χ) : Prop :=
  ∀ i < text.length, (cells row (column + i)).map Prod.fst = text[i]?

/-- A part of a stroke is shown where the stroke is uppermost. -/
theorem showsText_of_shows {cells : Cells χ α} {s : Stroke χ α} {start : ℕ} {text : List χ}
    (htext : ∀ i < text.length, s.text[start + i]? = text[i]?)
    (htop : ∀ i < text.length, s.Covers s.row (s.column + start + i) →
      cells s.row (s.column + start + i) = s.shows s.row (s.column + start + i)) :
    ShowsText cells s.row (s.column + start) text := by
  intro i hi
  have hget := htext i hi
  rw [List.getElem?_eq_getElem hi] at hget
  have hlen : start + i < s.text.length := (List.getElem?_eq_some_iff.1 hget).1
  have hcovers : s.Covers s.row (s.column + start + i) := ⟨rfl, by omega, by omega⟩
  have hindex : s.column + start + i - s.column = start + i := by omega
  rw [htop i hi hcovers, Stroke.map_fst_shows, if_pos ⟨rfl, hcovers.2.1⟩, hindex, htext i hi]

/-- A stroke is shown where it is uppermost. -/
theorem showsText_self {cells : Cells χ α} {s : Stroke χ α}
    (htop : ∀ column, s.Covers s.row column → cells s.row column = s.shows s.row column) :
    ShowsText cells s.row s.column s.text := by
  have hstart : s.column = s.column + 0 := rfl
  rw [hstart]
  refine showsText_of_shows (fun i _ => ?_) fun i _ => htop _
  rw [Nat.zero_add]

/-- A part of a text that is shown is shown at its place. -/
theorem ShowsText.part {cells : Cells χ α} {row column : ℕ} {before text after : List χ}
    (h : ShowsText cells row column (before ++ (text ++ after))) :
    ShowsText cells row (column + before.length) text := by
  intro i hi
  have hshown := h (before.length + i) (by simp only [List.length_append]; omega)
  rw [List.getElem?_append_right (by omega), Nat.add_sub_cancel_left,
    List.getElem?_append_left hi, ← Nat.add_assoc] at hshown
  exact hshown

/-- A place shows one text of a length. -/
theorem ShowsText.unique {cells : Cells χ α} {row column : ℕ} {text text' : List χ}
    (h : ShowsText cells row column text) (h' : ShowsText cells row column text')
    (hlength : text.length = text'.length) : text = text' := by
  refine List.ext_getElem? fun i => ?_
  by_cases hi : i < text.length
  · rw [← h i hi, ← h' i (by omega)]
  · rw [List.getElem?_eq_none (by omega), List.getElem?_eq_none (by omega)]

/-- Texts of one length, side by side. -/
theorem getElem?_flatMap {f : ι → List χ} {m : ℕ} (hm : ∀ i, (f i).length = m) {j : ℕ}
    (hj : j < m) : ∀ (is : List ι) (k : ℕ),
      (is.flatMap f)[k * m + j]? = is[k]?.bind fun i => (f i)[j]?
  | [], k => rfl
  | i :: is, 0 => by
    rw [List.flatMap_cons, Nat.zero_mul, Nat.zero_add,
      List.getElem?_append_left (by rw [hm]; exact hj)]
    rfl
  | i :: is, k + 1 => by
    have hindex : (k + 1) * m + j - m = k * m + j := by
      rw [Nat.succ_mul]
      omega
    rw [List.flatMap_cons, List.getElem?_append_right (by rw [hm, Nat.succ_mul]; omega), hm,
      hindex, getElem?_flatMap hm hj is k]
    rfl

/-! ## Editing a line -/

/-- Move the position a column to the left. -/
def left (g : Grid χ α) : Grid χ α := { g with column := g.column - 1 }

/-- Put `blank` over the last character, and stay there. -/
def erase (blank : χ) (g : Grid χ α) : Grid χ α := (g.left.put [blank]).left

/-- A character takes the cell at the position. -/
theorem put_singleton_cells (c : χ) (g : Grid χ α) (row column : ℕ) :
    (g.put [c]).cells row column =
      if row = g.row ∧ column = g.column then some (c, g.attr) else g.cells row column := by
  simp only [put, paint]
  by_cases hat : row = g.row ∧ column = g.column
  · obtain ⟨rfl, rfl⟩ := hat
    rw [if_pos ⟨rfl, rfl⟩, Stroke.shows, if_pos ⟨rfl, Nat.le_refl _⟩, Nat.sub_self]
    rfl
  · have hcovers : ¬ (⟨g.row, g.column, [c], g.attr⟩ : Stroke χ α).Covers row column := by
      rintro ⟨hrow, hle, hlt⟩
      rw [List.length_singleton] at hlt
      exact hat ⟨hrow, Nat.le_antisymm (Nat.lt_succ_iff.1 hlt) hle⟩
    rw [if_neg hat, Stroke.shows_eq_none hcovers, Option.none_or]

/-- From `g₀` on, the line has been edited at the position: it is shown there,
    behind it nothing but `blank` has been left, and the other cells are untouched. -/
structure Edited (blank : χ) (g₀ g : Grid χ α) (line : List χ) : Prop where
  attr : g.attr = g₀.attr
  row : g.row = g₀.row
  column : g.column = g₀.column + line.length
  shows : ShowsText g.cells g₀.row g₀.column line
  behind : ∀ column, g₀.column + line.length ≤ column →
    (g.cells g₀.row column).map Prod.fst = some blank ∨
      g.cells g₀.row column = g₀.cells g₀.row column
  apart : ∀ row column, row ≠ g₀.row ∨ column < g₀.column →
    g.cells row column = g₀.cells row column

section
variable {blank : χ} {g₀ g : Grid χ α} {line : List χ}

theorem Edited.refl (blank : χ) (g : Grid χ α) : Edited blank g g [] where
  attr := rfl
  row := rfl
  column := rfl
  shows i hi := absurd hi (Nat.not_lt_zero i)
  behind _ _ := Or.inr rfl
  apart _ _ _ := rfl

/-- Typing a character. -/
theorem Edited.put (h : Edited blank g₀ g line) (c : χ) :
    Edited blank g₀ (g.put [c]) (line ++ [c]) where
  attr := h.attr
  row := h.row
  column := by
    show g.column + 1 = _
    rw [h.column, List.length_append, List.length_singleton, Nat.add_assoc]
  shows := by
    intro i hi
    rw [List.length_append, List.length_singleton] at hi
    rw [put_singleton_cells, h.row, h.column]
    by_cases hlast : i = line.length
    · rw [if_pos ⟨rfl, by rw [hlast]⟩, hlast, List.getElem?_concat_length]
      rfl
    · have hlt : i < line.length := by omega
      rw [if_neg (by omega), List.getElem?_append_left hlt]
      exact h.shows i hlt
  behind := by
    intro column hcolumn
    rw [List.length_append, List.length_singleton] at hcolumn
    rw [put_singleton_cells, h.row, h.column, if_neg (by omega)]
    exact h.behind column (by omega)
  apart := by
    intro row column hapart
    rw [put_singleton_cells, h.row, h.column, if_neg (by omega)]
    exact h.apart row column hapart

/-- Erasing the last one. -/
theorem Edited.erase (h : Edited blank g₀ g line) (hne : line ≠ []) :
    Edited blank g₀ (g.erase blank) line.dropLast := by
  have hlen : 0 < line.length := List.length_pos_iff.2 hne
  have hleft : g.left.column = g₀.column + (line.length - 1) := by
    show g.column - 1 = _
    rw [h.column]
    omega
  have hcells : ∀ row column, (g.erase blank).cells row column =
      if row = g₀.row ∧ column = g₀.column + (line.length - 1) then some (blank, g.attr)
      else g.cells row column := by
    intro row column
    rw [← h.row, ← hleft]
    exact put_singleton_cells blank g.left row column
  refine ⟨h.attr, h.row, ?_, ?_, ?_, ?_⟩
  · show g.left.column + 1 - 1 = _
    rw [Nat.add_sub_cancel, hleft, List.length_dropLast]
  · intro i hi
    rw [List.length_dropLast] at hi
    rw [hcells, if_neg (by omega), List.getElem?_dropLast, if_pos hi]
    exact h.shows i (by omega)
  · intro column hcolumn
    rw [List.length_dropLast] at hcolumn
    rw [hcells]
    by_cases hat : column = g₀.column + (line.length - 1)
    · rw [if_pos ⟨rfl, hat⟩]
      exact Or.inl rfl
    · rw [if_neg fun h => hat h.2]
      exact h.behind column (by omega)
  · intro row column hapart
    rw [hcells, if_neg (by omega)]
    exact h.apart row column hapart

end

end Grid
