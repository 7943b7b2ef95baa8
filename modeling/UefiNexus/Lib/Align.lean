/-
  Rounding words to a power of two.

  `p` is a word whose value is a power of two (`PowTwo`).  Masking with `p - 1`
  is the remainder of the division by `p`, masking with `~~~(p - 1)` rounds down
  to a multiple of `p`, and doing so after adding `p - 1` rounds up.
-/
import Mathlib.Data.Nat.Bitwise
import Mathlib.Tactic.Common

namespace Align

variable {w : ℕ} {p x y : BitVec w}

/-- The word is a power of two. -/
def PowTwo (p : BitVec w) : Prop := ∃ k, p.toNat = 2 ^ k

theorem PowTwo.pos (hp : PowTwo p) : 0 < p.toNat := by
  obtain ⟨k, hk⟩ := hp
  rw [hk]; exact Nat.two_pow_pos k

theorem PowTwo.ne_zero (hp : PowTwo p) : p ≠ 0 := by
  rintro rfl
  exact absurd hp.pos (by simp)

theorem PowTwo.dvd_two_pow (hp : PowTwo p) : p.toNat ∣ 2 ^ w := by
  obtain ⟨k, hk⟩ := hp
  have := p.isLt
  rw [hk] at this ⊢
  exact Nat.pow_dvd_pow 2 ((Nat.pow_lt_pow_iff_right (by omega)).1 this).le

theorem PowTwo.toNat_sub_one (hp : PowTwo p) : (p - 1).toNat = p.toNat - 1 := by
  have h0 := hp.pos
  have h1 := p.isLt
  rcases w with _ | w
  · omega
  · have : (1 : BitVec (w + 1)).toNat = 1 := by
      simp only [BitVec.ofNat_eq_ofNat, BitVec.toNat_ofNat]
      exact Nat.mod_eq_of_lt (Nat.one_lt_two_pow (by omega))
    rw [BitVec.toNat_sub, this]
    have : 2 ^ (w + 1) - 1 + p.toNat = (p.toNat - 1) + 2 ^ (w + 1) := by omega
    rw [this, Nat.add_mod_right, Nat.mod_eq_of_lt (by omega)]

/-- **Masking with `p - 1` is the remainder.** -/
theorem toNat_and_mask (hp : PowTwo p) : (x &&& (p - 1)).toNat = x.toNat % p.toNat := by
  rw [BitVec.toNat_and, hp.toNat_sub_one]
  obtain ⟨k, hk⟩ := hp
  rw [hk, Nat.and_two_pow_sub_one_eq_mod]

/-- **Masking with `~~~(p - 1)` takes the remainder away.** -/
theorem toNat_and_not_mask (hp : PowTwo p) :
    (x &&& ~~~(p - 1)).toNat = x.toNat - x.toNat % p.toNat := by
  have hdis : (x &&& (p - 1)) &&& (x &&& ~~~(p - 1)) = 0#w := by
    ext i hi
    simp only [BitVec.getElem_and, BitVec.getElem_not, BitVec.getElem_zero]
    cases x[i] <;> cases (p - 1)[i] <;> rfl
  have hall : (x &&& (p - 1)) + (x &&& ~~~(p - 1)) = x := by
    rw [BitVec.add_eq_or_of_and_eq_zero _ _ hdis]
    ext i hi
    simp only [BitVec.getElem_or, BitVec.getElem_and, BitVec.getElem_not]
    cases x[i] <;> cases (p - 1)[i] <;> rfl
  have hsum := congrArg BitVec.toNat hall
  rw [BitVec.toNat_add_of_and_eq_zero hdis, toNat_and_mask hp] at hsum
  omega

theorem and_mask_eq_zero (hp : PowTwo p) : x &&& (p - 1) = 0 ↔ p.toNat ∣ x.toNat := by
  rw [← BitVec.toNat_inj, toNat_and_mask hp]
  simp [Nat.dvd_iff_mod_eq_zero]

/-- Rounding down gives a multiple. -/
theorem dvd_and_not_mask (hp : PowTwo p) : p.toNat ∣ (x &&& ~~~(p - 1)).toNat := by
  rw [toNat_and_not_mask hp]; exact Nat.dvd_sub_mod _

/-- Rounding down keeps a multiple. -/
theorem and_not_mask_of_dvd (hp : PowTwo p) (hx : p.toNat ∣ x.toNat) : x &&& ~~~(p - 1) = x := by
  apply BitVec.eq_of_toNat_eq
  rw [toNat_and_not_mask hp, Nat.mod_eq_zero_of_dvd hx, Nat.sub_zero]

theorem toNat_add_mask (hp : PowTwo p) :
    (x + (p - 1)).toNat = (x.toNat + (p.toNat - 1)) % 2 ^ w := by
  rw [BitVec.toNat_add, hp.toNat_sub_one]

/-- **Rounding up** gives the least multiple of `p` from `x` on, if there is one. -/
theorem roundUp_spec (hp : PowTwo p) (h : x.toNat + p.toNat ≤ 2 ^ w) :
    p.toNat ∣ ((x + (p - 1)) &&& ~~~(p - 1)).toNat ∧
      x.toNat ≤ ((x + (p - 1)) &&& ~~~(p - 1)).toNat ∧
      ((x + (p - 1)) &&& ~~~(p - 1)).toNat < x.toNat + p.toNat := by
  have hpos := hp.pos
  refine ⟨dvd_and_not_mask hp, ?_⟩
  rw [toNat_and_not_mask hp, toNat_add_mask hp, Nat.mod_eq_of_lt (by omega)]
  have := Nat.mod_lt (x.toNat + (p.toNat - 1)) hpos
  omega

/-- Without one the sum wraps around, and the result is zero. -/
theorem roundUp_eq_zero (hp : PowTwo p) (h : 2 ^ w < x.toNat + p.toNat) :
    (x + (p - 1)) &&& ~~~(p - 1) = 0 := by
  have hpos := hp.pos
  have hx := x.isLt
  have hlt := p.isLt
  have hwrap : (x.toNat + (p.toNat - 1)) % 2 ^ w = x.toNat + (p.toNat - 1) - 2 ^ w := by
    rw [Nat.mod_eq_sub_mod (by omega), Nat.mod_eq_of_lt (by omega)]
  apply BitVec.eq_of_toNat_eq
  rw [toNat_and_not_mask hp, toNat_add_mask hp, hwrap, Nat.mod_eq_of_lt (by omega), Nat.sub_self]
  rfl

/-- Two multiples of `p` are equal or `p` apart. -/
theorem add_le_of_lt {a b p : ℕ} (ha : p ∣ a) (hb : p ∣ b) (h : a < b) : a + p ≤ b := by
  have := Nat.le_of_dvd (by omega) (Nat.dvd_sub hb ha)
  omega

end Align
