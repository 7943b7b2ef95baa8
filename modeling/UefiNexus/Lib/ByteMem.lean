/-
  Little-endian values in a byte-addressed memory.

  A memory is a function from `w`-bit addresses to bytes.  `load` reads the
  value of `n` bytes, least significant first, and `store` writes the low `n`
  bytes of a value.
-/
import Mathlib.Tactic.Ring

namespace ByteMem

variable {w : ℕ}

/-- The value of the bytes `f 0, …, f (n - 1)`, least significant first. -/
def leValue (f : ℕ → BitVec 8) : ℕ → ℕ
  | 0 => 0
  | n + 1 => leValue f n + (f n).toNat * 256 ^ n

/-- The byte number `i` of a value. -/
def byteOf (value i : ℕ) : BitVec 8 := BitVec.ofNat 8 (value / 256 ^ i)

/-- The value of the `n` bytes at `a`. -/
def load (mem : BitVec w → BitVec 8) (a : BitVec w) (n : ℕ) : ℕ :=
  leValue (fun i => mem (a + BitVec.ofNat w i)) n

/-- The memory with the low `n` bytes of `value` at `a`. -/
def store (mem : BitVec w → BitVec 8) (a : BitVec w) (n value : ℕ) : BitVec w → BitVec 8 :=
  fun x => if (x - a).toNat < n then byteOf value (x - a).toNat else mem x

/-! ## Values -/

theorem leValue_lt (f : ℕ → BitVec 8) : ∀ n, leValue f n < 256 ^ n
  | 0 => by simp [leValue]
  | n + 1 => by
    have ih := leValue_lt f n
    have hb : (f n).toNat + 1 ≤ 256 := (f n).isLt
    calc leValue f n + (f n).toNat * 256 ^ n < 256 ^ n + (f n).toNat * 256 ^ n := by omega
      _ = ((f n).toNat + 1) * 256 ^ n := by ring
      _ ≤ 256 * 256 ^ n := Nat.mul_le_mul_right _ hb
      _ = 256 ^ (n + 1) := by ring

theorem leValue_congr {f g : ℕ → BitVec 8} : ∀ {n}, (∀ i < n, f i = g i) → leValue f n = leValue g n
  | 0, _ => rfl
  | n + 1, h => by
    rw [leValue, leValue, h n (by omega), leValue_congr fun i hi => h i (by omega)]

/-- **A little-endian value is made of its bytes.** -/
theorem byteOf_leValue {f : ℕ → BitVec 8} : ∀ {n i}, i < n → byteOf (leValue f n) i = f i
  | 0, _, h => absurd h (Nat.not_lt_zero _)
  | n + 1, i, h => by
    rcases Nat.lt_succ_iff_lt_or_eq.1 h with hi | rfl
    · rw [← @byteOf_leValue f n i hi]
      obtain ⟨k, rfl⟩ := Nat.exists_eq_add_of_lt hi
      have hp : 256 ^ (i + k + 1) = 256 ^ i * (256 * 256 ^ k) := by ring
      have : leValue f (i + k + 1 + 1) =
          leValue f (i + k + 1) + 256 ^ i * (256 * ((f (i + k + 1)).toNat * 256 ^ k)) := by
        rw [leValue, hp]; ring
      rw [byteOf, byteOf, this, Nat.add_mul_div_left _ _ (Nat.pow_pos (by omega))]
      apply BitVec.eq_of_toNat_eq
      simp only [BitVec.toNat_ofNat]
      omega
    · have hlt := leValue_lt f i
      rw [byteOf, leValue, Nat.add_mul_div_right _ _ (Nat.pow_pos (by omega)), Nat.div_eq_of_lt hlt,
        Nat.zero_add, BitVec.ofNat_toNat, BitVec.setWidth_eq]

/-- A value of `n` bytes has no byte from number `n` on. -/
theorem byteOf_of_lt {value n i : ℕ} (h : value < 256 ^ n) (hi : n ≤ i) : byteOf value i = 0 := by
  have : value < 256 ^ i := h.trans_le (Nat.pow_le_pow_right (by omega) hi)
  rw [byteOf, Nat.div_eq_of_lt this]; rfl

/-- The low `n` bytes of a value make its remainder. -/
theorem leValue_byteOf (value : ℕ) : ∀ n, leValue (byteOf value) n = value % 256 ^ n
  | 0 => by rw [Nat.pow_zero, Nat.mod_one, leValue]
  | n + 1 => by
    have hb : (byteOf value n).toNat = value / 256 ^ n % 256 := by
      rw [byteOf, BitVec.toNat_ofNat]
    rw [leValue, leValue_byteOf value n, hb, Nat.mod_pow_succ, Nat.mul_comm (256 ^ n)]

/-! ## Loads and stores -/

theorem load_congr {m m' : BitVec w → BitVec 8} {a : BitVec w} {n : ℕ}
    (h : ∀ i < n, m (a + BitVec.ofNat w i) = m' (a + BitVec.ofNat w i)) : load m a n = load m' a n :=
  leValue_congr h

theorem load_one (mem : BitVec w → BitVec 8) (a : BitVec w) : load mem a 1 = (mem a).toNat := by
  simp [load, leValue]

theorem store_of_lt {mem : BitVec w → BitVec 8} {a x : BitVec w} {n value : ℕ}
    (h : (x - a).toNat < n) : store mem a n value x = byteOf value (x - a).toNat := if_pos h

theorem store_of_le {mem : BitVec w → BitVec 8} {a x : BitVec w} {n value : ℕ}
    (h : n ≤ (x - a).toNat) : store mem a n value x = mem x := if_neg (by omega)

/-- Storing what is there changes nothing. -/
theorem store_load (mem : BitVec w → BitVec 8) (a : BitVec w) (n : ℕ) :
    store mem a n (load mem a n) = mem := by
  funext x
  rcases Nat.lt_or_ge (x - a).toNat n with h | h
  · have hx : a + BitVec.ofNat w (x - a).toNat = x := by
      rw [BitVec.ofNat_toNat, BitVec.setWidth_eq, BitVec.add_comm, BitVec.sub_add_cancel]
    rw [store_of_lt h, load, byteOf_leValue h, hx]
  · exact store_of_le h

/-- A load finds the low bytes of what was stored. -/
theorem load_store (mem : BitVec w → BitVec 8) (a : BitVec w) {n : ℕ} (value : ℕ)
    (hn : n ≤ 2 ^ w) : load (store mem a n value) a n = value % 256 ^ n := by
  have hbyte : ∀ i < n, store mem a n value (a + BitVec.ofNat w i) = byteOf value i := by
    intro i hi
    have hi' : (a + BitVec.ofNat w i - a).toNat = i := by
      rw [BitVec.add_comm, BitVec.add_sub_cancel, BitVec.toNat_ofNat, Nat.mod_eq_of_lt (by omega)]
    rw [store_of_lt (by rw [hi']; exact hi), hi']
  rw [load, leValue_congr hbyte, leValue_byteOf]

/-- `x` is among the `n` bytes at `a`, where these do not wrap around. -/
theorem sub_toNat_lt_iff {a x : BitVec w} {n : ℕ} (h : a.toNat + n ≤ 2 ^ w) :
    (x - a).toNat < n ↔ a.toNat ≤ x.toNat ∧ x.toNat < a.toNat + n := by
  have hx := x.isLt
  have ha := a.isLt
  rw [BitVec.toNat_sub]
  rcases Nat.lt_or_ge x.toNat a.toNat with hlt | hge
  · rw [Nat.mod_eq_of_lt (by omega)]
    omega
  · have : 2 ^ w - a.toNat + x.toNat = (x.toNat - a.toNat) + 2 ^ w := by omega
    rw [this, Nat.add_mod_right, Nat.mod_eq_of_lt (by omega)]
    omega

end ByteMem
