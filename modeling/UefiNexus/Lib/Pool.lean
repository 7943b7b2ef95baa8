/-
  Pools: blocks that are handed out and given back.

  The dealings of a program with a pool are a list of events, the oldest first.

  * `next live e`: the blocks, with their sizes, that are out after the event `e`, and
    `live es` those after the events `es`;
  * `Ok live e`: the event is no misuse — nothing is given back or used that is not
    out, nothing is used beyond its size, and nothing that is out is handed out;
  * `Run n live es live'`: the events `es` are no misuse, lead from the blocks `live`
    to the blocks `live'`, and never have more than `n` blocks out.
-/
import Mathlib.Data.Nat.Notation
import Mathlib.Tactic.Common

namespace Pool

/-- What happens to the block at `block`. -/
inductive Event (P : Type) where
  | alloc (block : P) (size : ℕ)
  | free (block : P)
  | use (block : P) (size : ℕ)
  deriving DecidableEq, Repr

variable {P : Type} [DecidableEq P]

/-- The blocks that are out after an event. -/
def next (live : List (P × ℕ)) : Event P → List (P × ℕ)
  | .alloc block size => live ++ [(block, size)]
  | .free block => live.filter fun b => b.1 ≠ block
  | .use _ _ => live

/-- The blocks that are out after the events. -/
def live (es : List (Event P)) : List (P × ℕ) := es.foldl next []

/-- The event is no misuse while the blocks `live` are out. -/
def Ok (live : List (P × ℕ)) : Event P → Prop
  | .alloc block _ => ∀ b ∈ live, b.1 ≠ block
  | .free block => ∃ b ∈ live, b.1 = block
  | .use block size => ∃ b ∈ live, b.1 = block ∧ size ≤ b.2

/-- Events without misuse, with at most `n` blocks out at any time. -/
inductive Run (n : ℕ) : List (P × ℕ) → List (Event P) → List (P × ℕ) → Prop where
  | nil {l : List (P × ℕ)} : l.length ≤ n → Run n l [] l
  | cons {l l' : List (P × ℕ)} {e : Event P} {es : List (Event P)} :
    l.length ≤ n → Ok l e → Run n (next l e) es l' → Run n l (e :: es) l'

namespace Run

variable {n : ℕ} {l l' l'' : List (P × ℕ)} {e : Event P} {es fs : List (Event P)}

theorem length_le (h : Run n l es l') : l.length ≤ n := by
  cases h with
  | nil hl => exact hl
  | cons hl _ _ => exact hl

theorem append (h : Run n l es l') (h' : Run n l' fs l'') : Run n l (es ++ fs) l'' := by
  induction h with
  | nil _ => exact h'
  | cons hl hok _ ih => exact .cons hl hok (ih h')

/-- Another event. -/
theorem concat (h : Run n l es l') (hlen : l'.length ≤ n) (hok : Ok l' e)
    (hnext : (next l' e).length ≤ n) : Run n l (es ++ [e]) (next l' e) :=
  h.append (.cons hlen hok (.nil hnext))

theorem foldl (h : Run n l es l') : es.foldl next l = l' := by
  induction h with
  | nil _ => rfl
  | cons _ _ _ ih => rw [List.foldl_cons, ih]

theorem live_eq (h : Run n [] es l) : live es = l := h.foldl

/-- The events before a point, and those from it on. -/
theorem split (h : Run n l (es ++ fs) l'') : ∃ l', Run n l es l' ∧ Run n l' fs l'' := by
  induction es generalizing l with
  | nil => exact ⟨l, .nil h.length_le, h⟩
  | cons e es ih =>
    cases h with
    | cons hl hok hrest =>
      obtain ⟨l', h₁, h₂⟩ := ih hrest
      exact ⟨l', .cons hl hok h₁, h₂⟩

/-- **No event is a misuse.** -/
theorem ok (h : Run n [] (es ++ e :: fs) l) : Ok (live es) e := by
  obtain ⟨l', h₁, h₂⟩ := h.split
  rw [h₁.live_eq]
  cases h₂ with
  | cons _ hok _ => exact hok

/-- **Never more than `n` blocks** are out. -/
theorem peak (h : Run n [] (es ++ fs) l) : (live es).length ≤ n := by
  obtain ⟨l', h₁, h₂⟩ := h.split
  rw [h₁.live_eq]
  exact h₂.length_le

end Run

end Pool
