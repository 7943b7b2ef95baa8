/-
  Lists shown in screens.

  * `screen size items j`: the items on the screen number `j`, at most `size` of
    them; the screens in order are the items in order (`flatMap_screen`);
  * `run size put more items printed`: the items are put one by one, with a
    counter; after every `size`-th one, `more` says whether to go on;
  * `run_append`: items that do not fill the screen are just put; `run_screen` and
    `run_rest`: a run is a screen and a run of the rest, or the rest.
-/
import UefiNexus.Lib.Prog
import Mathlib.Data.List.Basic
import Mathlib.Tactic.SplitIfs

namespace Pager

variable {W ι : Type}

/-! ## Screens -/

/-- The items on the screen number `j`. -/
def screen (size : ℕ) (items : List ι) (j : ℕ) : List ι := (items.drop (size * j)).take size

theorem length_screen_le (size : ℕ) (items : List ι) (j : ℕ) :
    (screen size items j).length ≤ size :=
  List.length_take_le _ _

theorem screen_succ (size : ℕ) (items : List ι) (j : ℕ) :
    screen size items (j + 1) = screen size (items.drop size) j := by
  rw [screen, screen, List.drop_drop, Nat.mul_succ, Nat.add_comm]

theorem screen_map {κ : Type} (f : ι → κ) (size : ℕ) (items : List ι) (j : ℕ) :
    screen size (items.map f) j = (screen size items j).map f := by
  rw [screen, screen, List.map_take, List.map_drop]

theorem flatMap_screen_range (size : ℕ) (items : List ι) (j : ℕ) :
    (List.range j).flatMap (screen size items) = items.take (size * j) := by
  induction j with
  | zero => rfl
  | succ j ih =>
    rw [List.range_succ, List.flatMap_append, ih, List.flatMap_singleton, screen, Nat.mul_succ,
      List.take_add]

/-- **The screens are the items**, each once and in order. -/
theorem flatMap_screen {size : ℕ} (hsize : 0 < size) (items : List ι) :
    (List.range (items.length / size + 1)).flatMap (screen size items) = items := by
  rw [flatMap_screen_range]
  exact List.take_of_length_le (Nat.le_of_lt (Nat.lt_mul_div_succ _ hsize))

/-! ## Runs -/

variable (size : ℕ) (put : ι → Prog W Unit) (more : Prog W Bool)

/-- The items one by one; the number of items put, or `none` if the user does not
    want more. -/
def run : List ι → ℕ → Prog W (Option ℕ)
  | [], printed => pure (some printed)
  | item :: items, printed => do
    put item
    if (printed + 1) % size = 0 then
      if ← more then run items (printed + 1) else pure none
    else run items (printed + 1)

section
variable {size put more}

theorem succ_mod {printed : ℕ} (h : printed % size + 1 < size) :
    (printed + 1) % size = printed % size + 1 := by
  rw [Nat.add_mod, Nat.mod_eq_of_lt (show 1 < size by omega), Nat.mod_eq_of_lt h]

/-- Items that do not fill the screen. -/
theorem run_append : ∀ (items rest : List ι) (printed : ℕ),
    printed % size + items.length < size →
    run size put more (items ++ rest) printed =
      (Prog.each put items >>= fun _ => run size put more rest (printed + items.length))
  | [], rest, printed, _ => rfl
  | item :: items, rest, printed, h => by
    rw [List.length_cons] at h
    have hmod := succ_mod (show printed % size + 1 < size by omega)
    have hfull : ¬ (printed + 1) % size = 0 := by omega
    have hrest := run_append items rest (printed + 1) (by omega)
    have hcount : printed + (items.length + 1) = printed + 1 + items.length := by omega
    rw [List.cons_append, run, Prog.each, Prog.seq_assoc, List.length_cons, hcount]
    simp only [if_neg hfull, hrest]

/-- The items that do not fill a screen. -/
theorem run_rest {items : List ι} {printed : ℕ} (hmod : printed % size = 0)
    (h : items.length < size) :
    run size put more items printed =
      (Prog.each put items >>= fun _ => pure (some (printed + items.length))) := by
  have hrun := @run_append W ι size put more items [] printed (by omega)
  rw [List.append_nil] at hrun
  exact hrun

/-- Items that fill the screen. -/
theorem run_fill : ∀ (item : ι) (items rest : List ι) (printed : ℕ),
    printed % size + items.length + 1 = size →
    run size put more (item :: items ++ rest) printed =
      (Prog.each put (item :: items) >>= fun _ => more >>= fun goOn =>
        if goOn then run size put more rest (printed + items.length + 1) else pure none)
  | item, [], rest, printed, h => by
    have hfull : (printed + 1) % size = 0 := by
      rw [← Nat.mod_add_mod, show printed % size + 1 = size from h, Nat.mod_self]
    rw [List.cons_append, List.nil_append, run, Prog.each, Prog.seq_assoc]
    simp only [if_pos hfull]
    rfl
  | item, item' :: items, rest, printed, h => by
    rw [List.length_cons] at h
    have hmod := succ_mod (show printed % size + 1 < size by omega)
    have hfull : ¬ (printed + 1) % size = 0 := by omega
    have hrest := run_fill item' items rest (printed + 1) (by omega)
    have hcount : printed + (item' :: items).length + 1 = printed + 1 + items.length + 1 := by
      rw [List.length_cons]
      omega
    rw [List.cons_append, run, Prog.each, Prog.seq_assoc, hcount]
    simp only [if_neg hfull, hrest]

/-- A full screen, and the rest. -/
theorem run_screen {items : List ι} {printed : ℕ} (hmod : printed % size = 0) (hsize : 0 < size)
    (h : size ≤ items.length) :
    run size put more items printed =
      (Prog.each put (items.take size) >>= fun _ => more >>= fun goOn =>
        if goOn then run size put more (items.drop size) (printed + size) else pure none) := by
  have hlength : (items.take size).length = size := List.length_take_of_le h
  rcases htake : items.take size with _ | ⟨item, rest⟩
  · rw [htake, List.length_nil] at hlength
    omega
  · rw [htake, List.length_cons] at hlength
    have hsplit : items = item :: rest ++ items.drop size := by
      rw [← htake, List.take_append_drop]
    have hrun := @run_fill W ι size put more item rest (items.drop size) printed (by omega)
    rw [← hsplit, show printed + rest.length + 1 = printed + size by omega] at hrun
    exact hrun

end

end Pager
