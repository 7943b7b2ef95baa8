/-
  Half-open intervals of natural numbers, and tables of them.

  A table is a list of entries, each with an interval (`extent`) and a test
  whether the entry counts (`valid`).  Looking up an interval in it takes the
  first valid entry that contains the interval (`First`).  In a table of pairwise
  disjoint entries, a non-empty part of an interval is found where the interval
  is (`First.part`).
-/
import Mathlib.Data.List.Basic

/-- The interval of the numbers `start ≤ n < start + size`. -/
structure Span where
  start : ℕ
  size : ℕ

namespace Span

/-- The end of the interval, not in it. -/
def stop (s : Span) : ℕ := s.start + s.size

/-- `s` is part of `t`. -/
def Within (s t : Span) : Prop := t.start ≤ s.start ∧ s.stop ≤ t.stop

/-- `s` and `t` have no number in common, one lies before the other. -/
def Disjoint (s t : Span) : Prop := s.stop ≤ t.start ∨ t.stop ≤ s.start

instance (s t : Span) : Decidable (s.Within t) := inferInstanceAs (Decidable (_ ∧ _))

instance (s t : Span) : Decidable (s.Disjoint t) := inferInstanceAs (Decidable (_ ∨ _))

theorem Within.trans {r s t : Span} (h : r.Within s) (h' : s.Within t) : r.Within t :=
  ⟨Nat.le_trans h'.1 h.1, Nat.le_trans h.2 h'.2⟩

theorem Disjoint.not_within {r s t : Span} (h : s.Disjoint t) (hr : 0 < r.size)
    (hs : r.Within s) : ¬ r.Within t := by
  rintro ⟨ht1, ht2⟩
  obtain ⟨hs1, hs2⟩ := hs
  simp only [Disjoint, stop] at h hs2 ht2
  omega

end Span

/-! ## First matches -/

namespace Table

variable {α β : Type}

/-- `x` is the first element of `xs` that has the property `P`. -/
def First (P : α → Prop) (xs : List α) (x : α) : Prop :=
  ∃ pre post, xs = pre ++ x :: post ∧ P x ∧ ∀ y ∈ pre, ¬ P y

theorem find?_eq_some_iff {p : α → Bool} {P : α → Prop} (h : ∀ x, p x = true ↔ P x)
    {xs : List α} {x : α} : xs.find? p = some x ↔ First P xs x := by
  rw [List.find?_eq_some_iff_append]
  constructor
  · rintro ⟨hx, pre, post, rfl, hpre⟩
    exact ⟨pre, post, rfl, (h x).1 hx, fun y hy hP => by simpa [(h y).2 hP] using hpre y hy⟩
  · rintro ⟨pre, post, rfl, hx, hpre⟩
    refine ⟨(h x).2 hx, pre, post, rfl, fun y hy => ?_⟩
    have : ¬ p y = true := fun hp => hpre y hy ((h y).1 hp)
    simpa using this

theorem First.mem {P : α → Prop} {xs : List α} {x : α} (h : First P xs x) : x ∈ xs := by
  obtain ⟨pre, post, rfl, -⟩ := h; simp

theorem First.holds {P : α → Prop} {xs : List α} {x : α} (h : First P xs x) : P x := by
  obtain ⟨_, _, _, hx, _⟩ := h; exact hx

theorem First.unique {P : α → Prop} {xs : List α} {x y : α} (hx : First P xs x)
    (hy : First P xs y) : x = y := by
  classical
  have hp : ∀ z, decide (P z) = true ↔ P z := fun z => decide_eq_true_iff
  rw [← find?_eq_some_iff hp] at hx hy
  exact Option.some.inj (hx.symm.trans hy)

/-! ## Tables of intervals -/

section
variable (valid : α → Prop) (extent : α → Span)

/-- The entry counts and contains `r`. -/
def Contains (r : Span) (x : α) : Prop := valid x ∧ r.Within (extent x)

/-- The valid entries have no number in common. -/
def PairwiseDisjoint (xs : List α) : Prop :=
  xs.Pairwise fun x y => valid x → valid y → (extent x).Disjoint (extent y)

variable {valid extent}

theorem Contains.part {r r' : Span} {x : α} (h : Contains valid extent r x) (hr : r'.Within r) :
    Contains valid extent r' x := ⟨h.1, hr.trans h.2⟩

/-- **In a disjoint table, a non-empty part of an interval is found where the
    interval is found.** -/
theorem First.part {r r' : Span} {xs : List α} {x : α} (hd : PairwiseDisjoint valid extent xs)
    (h : First (Contains valid extent r) xs x) (hr : r'.Within r) (hne : 0 < r'.size) :
    First (Contains valid extent r') xs x := by
  obtain ⟨pre, post, rfl, hx, -⟩ := h
  refine ⟨pre, post, rfl, hx.part hr, fun y hy hy' => ?_⟩
  have hdis : (extent y).Disjoint (extent x) :=
    (List.pairwise_append.1 hd).2.2 y hy x (by simp) hy'.1 hx.1
  exact hdis.not_within hne hy'.2 (hx.part hr).2

end

end Table
