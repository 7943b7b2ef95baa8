/-
  Programs that compute with words, and may be checked for wrap-around.

  An `Arith w m` gives the additions, subtractions and left shifts of `w`-bit
  words in a monad `m`; a program takes it as a parameter.  In `wrapping` it is
  the machine's program; in `checked` it stops at the first operation whose exact
  result is no word.

  * `Exact`: where the exact result is a word, the arithmetic returns it;
  * `Computes prog r`: the program returns `r` in every exact arithmetic.  Then
    the machine returns `r` (`Computes.wrapping`), and none of its operations
    wraps around (`Computes.checked`);
  * the rules for folds and searches.
-/
import Mathlib.Algebra.Group.Nat.Defs

namespace Checked

variable {w : ℕ} {m : Type → Type} {α ι σ : Type}

/-- The arithmetic of words, in a monad. -/
structure Arith (w : ℕ) (m : Type → Type) where
  add : BitVec w → BitVec w → m (BitVec w)
  sub : BitVec w → BitVec w → m (BitVec w)
  shiftLeft : BitVec w → ℕ → m (BitVec w)

/-- The machine's arithmetic. -/
def wrapping : Arith w Id where
  add x y := x + y
  sub x y := x - y
  shiftLeft x n := x <<< n

/-- The arithmetic that stops where an operation wraps around. -/
def checked : Arith w Option where
  add x y := if x.toNat + y.toNat < 2 ^ w then some (x + y) else none
  sub x y := if y.toNat ≤ x.toNat then some (x - y) else none
  shiftLeft x n := if x.toNat * 2 ^ n < 2 ^ w then some (x <<< n) else none

/-- The arithmetic returns the exact result, where it is a word. -/
structure Arith.Exact [Monad m] (arith : Arith w m) : Prop where
  add : ∀ x y, x.toNat + y.toNat < 2 ^ w → arith.add x y = pure (x + y)
  sub : ∀ x y, y.toNat ≤ x.toNat → arith.sub x y = pure (x - y)
  shiftLeft : ∀ x n, x.toNat * 2 ^ n < 2 ^ w → arith.shiftLeft x n = pure (x <<< n)

theorem wrapping_exact : (wrapping : Arith w Id).Exact :=
  ⟨fun _ _ _ => rfl, fun _ _ _ => rfl, fun _ _ _ => rfl⟩

theorem checked_exact : (checked : Arith w Option).Exact :=
  ⟨fun _ _ h => if_pos h, fun _ _ h => if_pos h, fun _ _ h => if_pos h⟩

/-- The program returns `r` in every exact arithmetic. -/
def Computes (prog : ∀ {m : Type → Type} [Monad m], Arith w m → m α) (r : α) : Prop :=
  ∀ {m : Type → Type} [Monad m] [LawfulMonad m] (arith : Arith w m), arith.Exact →
    prog arith = pure r

section
variable {prog : ∀ {m : Type → Type} [Monad m], Arith w m → m α} {r : α}

/-- The machine's result. -/
theorem Computes.wrapping (h : Computes prog r) : prog wrapping = r := h _ wrapping_exact

/-- **No operation wraps around.** -/
theorem Computes.checked (h : Computes prog r) : prog checked = some r := h _ checked_exact

end

/-! ## Rules -/

/-- A fold, element by element. -/
theorem Computes.foldlM (step : ∀ {m : Type → Type} [Monad m], Arith w m → σ → ι → m σ)
    {next : σ → ι → σ} :
    ∀ (xs : List ι), (∀ x ∈ xs, ∀ s, Computes (fun arith => step arith s x) (next s x)) →
      ∀ s, Computes (fun arith => xs.foldlM (step arith) s) (xs.foldl next s)
  | [], _, s => fun _ _ => rfl
  | x :: xs, h, s => by
    intro arith harith
    have hfirst : step arith s x = Pure.pure (next s x) := h x List.mem_cons_self s arith harith
    have hrest : xs.foldlM (step arith) (next s x) = Pure.pure (xs.foldl next (next s x)) :=
      Computes.foldlM step xs (fun y hy => h y (List.mem_cons_of_mem _ hy)) _ arith harith
    simp only [List.foldlM_cons, hfirst, pure_bind, hrest, List.foldl_cons]

/-- A search that stops at the first element that passes the test. -/
theorem Computes.anyM (test : ∀ {m : Type → Type} [Monad m], Arith w m → ι → m Bool)
    {p : ι → Bool} :
    ∀ (xs : List ι), (∀ x ∈ xs, Computes (fun arith => test arith x) (p x)) →
      Computes (fun arith => xs.anyM (test arith)) (xs.any p)
  | [], _ => fun _ _ => rfl
  | x :: xs, h => by
    intro arith harith
    have hfirst : test arith x = Pure.pure (p x) := h x List.mem_cons_self arith harith
    have hrest : xs.anyM (test arith) = Pure.pure (xs.any p) :=
      Computes.anyM test xs (fun y hy => h y (List.mem_cons_of_mem _ hy)) arith harith
    simp only [List.anyM, hfirst, pure_bind, List.any_cons]
    cases p x with
    | true => rfl
    | false => exact hrest

end Checked
