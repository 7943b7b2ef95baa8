/-
  Programs over a state that may not return.

  `Prog W α` is a program over the state `W`: it returns a value, or it never
  returns (it waits for an input that does not come, or loops for ever).  In
  both cases it leaves the state it has reached.

  * `Closed Φ`: a property of programs kept by `pure` and `bind`, so that a
    composite program has it as soon as its primitive operations do;
  * `Sat R`: every run relates the state before to the state after by `R`;
  * `Agree R`: from related states, two programs return the same value and end
    in related states;
  * `Adds f k`: a returning run adds `k` to the measure `f`;
  * `each f is`: the programs `f i` one after the other, as a counted loop runs
    them;
  * `loop` and `visits`: a `while` loop with fuel, and the states in which it is
    about to serve its `n`-th input.
-/
import Mathlib.Tactic.Basic
import Mathlib.Order.Defs.Unbundled
import Mathlib.Data.Nat.Notation

/-- A program over the state `W`. -/
def Prog (W α : Type) := W → Option α × W

namespace Prog

variable {W α β σ : Type}

instance : Monad (Prog W) where
  pure a := fun w => (some a, w)
  bind m f := fun w =>
    match m w with
    | (some a, w') => f a w'
    | (none, w') => (none, w')

/-- The program that never returns. -/
def hang : Prog W α := fun w => (none, w)

/-- Read the state. -/
def get : Prog W W := fun w => (some w, w)

/-- Change the state. -/
def modify (f : W → W) : Prog W Unit := fun w => (some (), f w)

/-! ## Runs -/

@[simp] theorem pure_apply (a : α) (w : W) : (pure a : Prog W α) w = (some a, w) := rfl

@[simp] theorem hang_apply (w : W) : (hang : Prog W α) w = (none, w) := rfl

@[simp] theorem get_apply (w : W) : (get : Prog W W) w = (some w, w) := rfl

@[simp] theorem modify_apply (f : W → W) (w : W) : modify f w = (some (), f w) := rfl

theorem bind_of_some {m : Prog W α} {f : α → Prog W β} {w w' : W} {a : α}
    (h : m w = (some a, w')) : (m >>= f) w = f a w' := by
  simp only [bind, h]

theorem bind_of_none {m : Prog W α} {f : α → Prog W β} {w w' : W}
    (h : m w = (none, w')) : (m >>= f) w = (none, w') := by
  simp only [bind, h]

theorem bind_eq_some {m : Prog W α} {f : α → Prog W β} {w w' : W} {b : β} :
    (m >>= f) w = (some b, w') ↔ ∃ a w₁, m w = (some a, w₁) ∧ f a w₁ = (some b, w') := by
  constructor
  · intro h
    rcases hm : m w with ⟨_ | a, w₁⟩
    · rw [bind_of_none hm] at h; simp at h
    · rw [bind_of_some hm] at h; exact ⟨a, w₁, rfl, h⟩
  · rintro ⟨a, w₁, hm, hf⟩
    rw [bind_of_some hm, hf]

theorem seq_assoc {γ : Type} (m : Prog W α) (f : α → Prog W β) (g : β → Prog W γ) :
    (m >>= f) >>= g = m >>= fun a => f a >>= g := by
  funext w
  rcases hm : m w with ⟨_ | a, w'⟩
  · rw [bind_of_none hm, bind_of_none (bind_of_none hm)]
  · rw [bind_of_some hm]
    show (match (m >>= f) w with
      | (some b, w'') => g b w''
      | (none, w'') => (none, w'')) = _
    rw [bind_of_some hm]
    rfl

/-- The value and the state a returning run ends with. -/
def done (m : Prog W α) (w : W) : Option (α × W) :=
  match m w with
  | (some a, w') => some (a, w')
  | (none, _) => none

theorem done_eq_some {m : Prog W α} {w w' : W} {a : α} :
    done m w = some (a, w') ↔ m w = (some a, w') := by
  simp only [done]
  rcases m w with ⟨_ | b, w₁⟩ <;> simp

theorem done_bind (m : Prog W α) (f : α → Prog W β) (w : W) :
    done (m >>= f) w = (done m w).bind fun p => done (f p.1) p.2 := by
  rcases hm : m w with ⟨_ | a, w'⟩
  · have hnone : (m >>= f) w = (none, w') := bind_of_none hm
    simp only [done, hm, hnone, Option.bind_none]
  · rw [done_eq_some.2 hm, Option.bind_some]
    unfold done
    rw [bind_of_some hm]

theorem pure_eq_some {a b : α} {w w' : W} :
    (pure a : Prog W α) w = (some b, w') ↔ a = b ∧ w = w' := by
  simp

/-! ## Properties closed under composition -/

/-- A property of programs kept by `pure` and `bind`. -/
structure Closed (Φ : ∀ {α : Type}, Prog W α → Prop) : Prop where
  ret : ∀ {α : Type} (a : α), Φ (pure a : Prog W α)
  seq : ∀ {α β : Type} {m : Prog W α} {f : α → Prog W β}, Φ m → (∀ a, Φ (f a)) → Φ (m >>= f)

/-- `m` relates the state before to the state after by `R`. -/
def Sat (R : W → W → Prop) (m : Prog W α) : Prop := ∀ w, R w (m w).2

theorem Sat.closed {R : W → W → Prop} [IsPreorder W R] : Closed (Sat R) where
  ret _ w := refl_of R w
  seq {α β m f} hm hf w := by
    have h1 := hm w
    rcases h : m w with ⟨_ | a, w₁⟩
    · rw [bind_of_none h]; rw [h] at h1; exact h1
    · rw [bind_of_some h]; rw [h] at h1; exact trans_of R h1 (hf a w₁)

theorem Sat.run {R : W → W → Prop} {m : Prog W α} (h : Sat R m) {w w' : W} {r : Option α}
    (hm : m w = (r, w')) : R w w' := by
  have hw := h w
  rwa [hm] at hw

theorem Sat.hang {R : W → W → Prop} [IsPreorder W R] : Sat R (hang : Prog W α) :=
  fun w => refl_of R w

/-- From related states, the runs of `m` return the same value, if any, and end
    in related states. -/
def Agree (R : W → W → Prop) (m : Prog W α) : Prop :=
  ∀ w w', R w w' → (m w).1 = (m w').1 ∧ R (m w).2 (m w').2

theorem Agree.seq {R : W → W → Prop} {m : Prog W α} {f : α → Prog W β} {w w' : W}
    (hm : (m w).1 = (m w').1 ∧ R (m w).2 (m w').2) (hf : ∀ a, Agree R (f a)) :
    ((m >>= f) w).1 = ((m >>= f) w').1 ∧ R ((m >>= f) w).2 ((m >>= f) w').2 := by
  obtain ⟨h1, h2⟩ := hm
  rcases h : m w with ⟨_ | a, w₁⟩ <;> rcases h' : m w' with ⟨_ | a', w₁'⟩ <;> rw [h, h'] at h1 h2
  · rw [bind_of_none h, bind_of_none h']; exact ⟨rfl, h2⟩
  · cases h1
  · cases h1
  · obtain rfl : a = a' := Option.some.inj h1
    rw [bind_of_some h, bind_of_some h']
    exact hf a w₁ w₁' h2

theorem Agree.closed (R : W → W → Prop) : Closed (Agree R) where
  ret _ _ _ h := ⟨rfl, h⟩
  seq hm hf w w' hR := Agree.seq (hm w w' hR) hf

theorem Agree.hang (R : W → W → Prop) : Agree R (hang : Prog W α) := fun _ _ h => ⟨rfl, h⟩

/-- A returning run of `m` adds `k` to the measure `f`. -/
def Adds (f : W → ℕ) (k : ℕ) (m : Prog W α) : Prop :=
  ∀ w a w', m w = (some a, w') → f w' = f w + k

theorem Adds.pure (f : W → ℕ) (a : α) : Adds f 0 (pure a : Prog W α) := by
  rintro w b w' ⟨⟩; rfl

theorem Adds.bind {f : W → ℕ} {k l : ℕ} {m : Prog W α} {g : α → Prog W β} (hm : Adds f k m)
    (hg : ∀ a, Adds f l (g a)) : Adds f (k + l) (m >>= g) := by
  intro w b w' h
  obtain ⟨a, w₁, h1, h2⟩ := bind_eq_some.1 h
  rw [hg a _ _ _ h2, hm _ _ _ h1, Nat.add_assoc]

/-! ## Loops -/

/-- The programs for the elements of a list, one after the other. -/
def each {ι : Type} (f : ι → Prog W Unit) : List ι → Prog W Unit
  | [] => pure ()
  | i :: is => do
    f i
    each f is

theorem each_append {ι : Type} (f : ι → Prog W Unit) :
    ∀ is js, each f (is ++ js) = (each f is >>= fun _ => each f js)
  | [], js => rfl
  | i :: is, js => by
    rw [List.cons_append, each, each, seq_assoc]
    simp only [each_append f is js]

theorem Closed.each {Φ : ∀ {α : Type}, Prog W α → Prop} (h : Closed Φ) {ι : Type}
    {f : ι → Prog W Unit} : ∀ {is : List ι}, (∀ i ∈ is, Φ (f i)) → Φ (Prog.each f is)
  | [], _ => h.ret ()
  | _ :: _, hf => h.seq (hf _ (List.mem_cons_self ..)) fun _ =>
      h.each fun i hi => hf i (List.mem_cons_of_mem _ hi)

theorem Adds.each {ι : Type} {f : W → ℕ} {p : ι → Bool} {m : ι → Prog W Unit}
    (h : ∀ i, Adds f (if p i then 1 else 0) (m i)) : ∀ is, Adds f (is.countP p) (Prog.each m is)
  | [] => Adds.pure f ()
  | i :: is => by
    rw [List.countP_cons, Nat.add_comm]
    exact Adds.bind (h i) fun _ => Adds.each h is

/-- **A counted loop is a pass over its values.**  `F` is the loop
    `for (o = k * width; o < limit; o += width)` with fuel. -/
theorem counted_eq_each {v : ℕ} (F : ℕ → BitVec v → Prog W Unit) (body : BitVec v → Prog W Unit)
    (limit : BitVec v) {width : BitVec v} {N : ℕ} (hN : N * width.toNat = limit.toNat)
    (hpos : 0 < width.toNat)
    (hzero : ∀ o, F 0 o = if o < limit then hang else pure ())
    (hsucc : ∀ n o, F (n + 1) o =
      if o < limit then (do body o; F n (o + width)) else pure ()) :
    ∀ m n k, k + m = N → m ≤ n →
      F n (BitVec.ofNat v (k * width.toNat)) =
        each (fun i => body (BitVec.ofNat v (i * width.toNat))) (List.range' k m)
  | 0, n, k, hk, _ => by
    have hend : ¬ BitVec.ofNat v (k * width.toNat) < limit := by
      obtain rfl : k = N := by omega
      rw [hN, BitVec.ofNat_toNat, BitVec.setWidth_eq]
      exact BitVec.lt_irrefl limit
    cases n with
    | zero => rw [hzero, if_neg hend]; rfl
    | succ n => rw [hsucc, if_neg hend]; rfl
  | m + 1, 0, k, _, hn => absurd hn (by omega)
  | m + 1, n + 1, k, hk, hn => by
    have hlt : BitVec.ofNat v (k * width.toNat) < limit := by
      have hmul : k * width.toNat < N * width.toNat :=
        Nat.mul_lt_mul_of_pos_right (by omega) hpos
      rw [hN] at hmul
      rw [BitVec.lt_def, BitVec.toNat_ofNat, Nat.mod_eq_of_lt (Nat.lt_trans hmul limit.isLt)]
      exact hmul
    have hnext : BitVec.ofNat v (k * width.toNat) + width =
        BitVec.ofNat v ((k + 1) * width.toNat) := by
      rw [Nat.add_mul, Nat.one_mul, BitVec.ofNat_add, BitVec.ofNat_toNat, BitVec.setWidth_eq]
    rw [hsucc, if_pos hlt, hnext, List.range'_succ, each,
      counted_eq_each F body limit hN hpos hzero hsucc m n (k + 1) (by omega) (by omega)]

/-- `while (TRUE)`, at most `n` times: `top` prepares the state, `serve` serves
    an input and either continues with a new state or returns. -/
def loop (top : σ → Prog W σ) (serve : σ → Prog W (σ ⊕ α)) : ℕ → σ → Prog W α
  | 0, _ => hang
  | n + 1, s => do
    let s₁ ← top s
    match ← serve s₁ with
    | .inl s₂ => loop top serve n s₂
    | .inr a => pure a

/-- The state in which the loop from `s` and `w` serves its input number `n`, if
    it gets so far. -/
def visits (top : σ → Prog W σ) (serve : σ → Prog W (σ ⊕ α)) : ℕ → σ → W → Option (σ × W)
  | 0, s, w => done (top s) w
  | n + 1, s, w =>
    (done (top s) w).bind fun p => (done (serve p.1) p.2).bind fun q =>
      match q.1 with
      | .inl s₁ => visits top serve n s₁ q.2
      | .inr _ => none

section
variable {top : σ → Prog W σ} {serve : σ → Prog W (σ ⊕ α)} {s s' : σ} {w w' : W}

theorem loop_closed {Φ : ∀ {α : Type}, Prog W α → Prop} (hΦ : Closed Φ)
    (hh : Φ (hang : Prog W α)) (ht : ∀ s, Φ (top s)) (hs : ∀ s, Φ (serve s)) :
    ∀ n s, Φ (loop top serve n s)
  | 0, _ => hh
  | n + 1, s => by
    refine hΦ.seq (ht s) fun s₁ => hΦ.seq (hs s₁) fun r => ?_
    cases r with
    | inl s₂ => exact loop_closed hΦ hh ht hs n s₂
    | inr a => exact hΦ.ret a

theorem visits_zero : visits top serve 0 s w = some (s', w') ↔ top s w = (some s', w') :=
  done_eq_some

/-- The inputs after the first, from the state the first one leaves. -/
theorem visits_shift {n : ℕ} :
    visits top serve (n + 1) s w = some (s', w') ↔
      ∃ s₁ w₁ s₂ w₂, top s w = (some s₁, w₁) ∧ serve s₁ w₁ = (some (.inl s₂), w₂) ∧
        visits top serve n s₂ w₂ = some (s', w') := by
  simp only [visits, Option.bind_eq_some_iff, Prod.exists, done_eq_some]
  constructor
  · rintro ⟨s₁, w₁, ht, r | a, w₂, hs, h⟩
    · exact ⟨s₁, w₁, r, w₂, ht, hs, h⟩
    · simp at h
  · rintro ⟨s₁, w₁, s₂, w₂, ht, hs, h⟩
    exact ⟨s₁, w₁, ht, .inl s₂, w₂, hs, h⟩

/-- The next input, from the state the last one leaves. -/
theorem visits_succ {n : ℕ} :
    visits top serve (n + 1) s w = some (s', w') ↔
      ∃ s₁ w₁ s₂ w₂, visits top serve n s w = some (s₁, w₁) ∧
        serve s₁ w₁ = (some (.inl s₂), w₂) ∧ top s₂ w₂ = (some s', w') := by
  induction n generalizing s w with
  | zero => simp only [visits_shift, visits_zero]
  | succ n ih =>
    rw [visits_shift]
    constructor
    · rintro ⟨s₁, w₁, s₂, w₂, ht, hs, h⟩
      obtain ⟨s₃, w₃, s₄, w₄, hv, hs', ht'⟩ := ih.1 h
      exact ⟨s₃, w₃, s₄, w₄, visits_shift.2 ⟨s₁, w₁, s₂, w₂, ht, hs, hv⟩, hs', ht'⟩
    · rintro ⟨s₃, w₃, s₄, w₄, hv, hs', ht'⟩
      obtain ⟨s₁, w₁, s₂, w₂, ht, hs, h⟩ := visits_shift.1 hv
      exact ⟨s₁, w₁, s₂, w₂, ht, hs, ih.2 ⟨s₃, w₃, s₄, w₄, h, hs', ht'⟩⟩

/-- **Invariants of a loop**: what holds when the first input is served, and is
    kept by serving an input, holds whenever an input is served. -/
theorem visits_induct {I : σ → W → Prop} (h₀ : ∀ s' w', top s w = (some s', w') → I s' w')
    (hstep : ∀ s₁ w₁ s₂ w₂ s' w', I s₁ w₁ → serve s₁ w₁ = (some (.inl s₂), w₂) →
      top s₂ w₂ = (some s', w') → I s' w') :
    ∀ n s' w', visits top serve n s w = some (s', w') → I s' w'
  | 0, s', w', h => h₀ s' w' (visits_zero.1 h)
  | n + 1, s', w', h => by
    obtain ⟨s₁, w₁, s₂, w₂, hv, hs, ht⟩ := visits_succ.1 h
    exact hstep s₁ w₁ s₂ w₂ s' w' (visits_induct h₀ hstep n s₁ w₁ hv) hs ht

theorem done_agree {R : W → W → Prop} {m : Prog W α} {w w' : W}
    (hm : (m w).1 = (m w').1 ∧ R (m w).2 (m w').2) :
    Option.Rel (fun p q => p.1 = q.1 ∧ R p.2 q.2) (done m w) (done m w') := by
  obtain ⟨h1, h2⟩ := hm
  simp only [done]
  rcases h : m w with ⟨_ | a, w₁⟩ <;> rcases h' : m w' with ⟨_ | a', w₁'⟩ <;> rw [h, h'] at h1 h2
  · exact .none
  · cases h1
  · cases h1
  · exact .some ⟨Option.some.inj h1, h2⟩

theorem rel_mono {R Q : α → β → Prop} {x : Option α} {y : Option β} (h : Option.Rel R x y)
    (hR : ∀ a b, R a b → Q a b) : Option.Rel Q x y := by
  cases h with
  | none => exact .none
  | some h => exact .some (hR _ _ h)

theorem rel_bind {γ δ : Type} {R : α → β → Prop} {Q : γ → δ → Prop} {x : Option α} {y : Option β}
    {f : α → Option γ} {g : β → Option δ} (h : Option.Rel R x y)
    (hf : ∀ a b, R a b → Option.Rel Q (f a) (g b)) : Option.Rel Q (x.bind f) (y.bind g) := by
  cases h with
  | none => exact .none
  | some h => exact hf _ _ h

/-- **Two runs of a loop** from related states serve their inputs in related
    states, with the same local state. -/
theorem visits_agree {R : W → W → Prop} (ht : ∀ s, Agree R (top s)) (hs : ∀ s, Agree R (serve s)) :
    ∀ n s w w', R w w' →
      Option.Rel (fun p q => p.1 = q.1 ∧ R p.2 q.2) (visits top serve n s w)
        (visits top serve n s w')
  | 0, s, w, w', hR => done_agree (ht s w w' hR)
  | n + 1, s, w, w', hR => by
    refine rel_bind (done_agree (ht s w w' hR)) ?_
    rintro ⟨s₁, w₁⟩ ⟨_, w₁'⟩ ⟨rfl, h₁⟩
    refine rel_bind (done_agree (hs s₁ w₁ w₁' h₁)) ?_
    rintro ⟨r, w₂⟩ ⟨_, w₂'⟩ ⟨rfl, h₂⟩
    cases r with
    | inl s₂ => exact visits_agree ht hs n s₂ w₂ w₂' h₂
    | inr a => exact .none

/-- **A loop returns from the input it serves last.** -/
theorem loop_eq_some {a : α} {n : ℕ} :
    loop top serve n s w = (some a, w') ↔
      ∃ k < n, ∃ s₁ w₁, visits top serve k s w = some (s₁, w₁) ∧
        serve s₁ w₁ = (some (.inr a), w') := by
  induction n generalizing s w with
  | zero => simp [loop]
  | succ n ih =>
    rw [loop, bind_eq_some]
    constructor
    · rintro ⟨s₁, w₁, ht, h⟩
      obtain ⟨s₂ | b, w₂, hs, h⟩ := bind_eq_some.1 h
      · obtain ⟨k, hk, s₃, w₃, hv, hr⟩ := ih.1 h
        exact ⟨k + 1, by omega, s₃, w₃, visits_shift.2 ⟨s₁, w₁, s₂, w₂, ht, hs, hv⟩, hr⟩
      · obtain ⟨rfl, rfl⟩ := pure_eq_some.1 h
        exact ⟨0, by omega, s₁, w₁, visits_zero.2 ht, hs⟩
    · rintro ⟨_ | k, hk, s₁, w₁, hv, hr⟩
      · exact ⟨s₁, w₁, visits_zero.1 hv, bind_eq_some.2 ⟨_, _, hr, rfl⟩⟩
      · obtain ⟨s₂, w₂, s₃, w₃, ht, hs, hv⟩ := visits_shift.1 hv
        exact ⟨s₂, w₂, ht, bind_eq_some.2 ⟨_, _, hs, ih.2 ⟨k, by omega, s₁, w₁, hv, hr⟩⟩⟩

end

end Prog
