/-
  Best-candidate searches, and walks that follow them.

  * `IsSearch P key cand s step`: on elements with the property `P`, `step` keeps
    the candidate with the least key, in a variable whose value `s` means "none
    yet"; `IsSearch.foldl_finds` says what the search of a list `Finds`;
  * `StepsUp V key next`: `next` moves a state to the least key of `V` above it,
    and leaves the state alone when there is none;
  * `StepsUp.walk`: repeating `next` visits every key of `V` above the start
    once, in ascending order, and then stops;
  * `StepsDown V key prev`: the same downwards; `StepsUp.walk_back`: it goes the
    way of a walk up back.
-/
import Mathlib.Logic.Function.Iterate
import Mathlib.Order.Nat
import Mathlib.Tactic.ByContra
import Mathlib.Tactic.Common

namespace Search

/-! ## Searches -/

section
variable {α β : Type}

/-- One step of a search for the candidate with the least key. -/
structure IsSearch (P : β → Prop) (key : α → ℕ) (cand : β → Option α) (s : α)
    (step : α → β → α) : Prop where
  skip : ∀ b x, cand x = none → step b x = b
  first : ∀ x c, P x → cand x = some c → step s x = c
  next : ∀ b x c, P x → b ≠ s → cand x = some c → step b x = if key c < key b then c else b
  cand_ne : ∀ x c, P x → cand x = some c → c ≠ s

variable {P : β → Prop} {key : α → ℕ} {cand : β → Option α} {s : α} {step : α → β → α}

theorem IsSearch.foldl_inv (h : IsSearch P key cand s step) (xs : List β) (hP : ∀ x ∈ xs, P x)
    (b : α) :
    (xs.foldl step b = b ∨ ∃ x ∈ xs, cand x = some (xs.foldl step b)) ∧
    (b ≠ s → xs.foldl step b ≠ s ∧ key (xs.foldl step b) ≤ key b) ∧
    ∀ x ∈ xs, ∀ c, cand x = some c → xs.foldl step b ≠ s ∧ key (xs.foldl step b) ≤ key c := by
  induction xs generalizing b with
  | nil => exact ⟨Or.inl rfl, fun hb => ⟨hb, Nat.le_refl _⟩, fun x hx => absurd hx (by simp)⟩
  | cons y ys ih =>
    have hPy := hP y List.mem_cons_self
    obtain ⟨ih1, ih2, ih3⟩ := ih (fun x hx => hP x (List.mem_cons_of_mem _ hx)) (step b y)
    rw [List.foldl_cons]
    rcases hy : cand y with _ | d
    · rw [h.skip b y hy] at ih1 ih2 ih3 ⊢
      refine ⟨ih1.imp_right fun ⟨x, hx, hc⟩ => ⟨x, List.mem_cons_of_mem _ hx, hc⟩, ih2, ?_⟩
      intro x hx c hc
      rcases List.mem_cons.1 hx with rfl | hx
      · rw [hy] at hc; simp at hc
      · exact ih3 x hx c hc
    · -- the step leaves a candidate, at most the old one and `d`
      have hstep : (step b y = d ∨ step b y = b ∧ b ≠ s) ∧ key (step b y) ≤ key d ∧
          (b ≠ s → key (step b y) ≤ key b) := by
        by_cases hb : b = s
        · rw [hb, h.first y d hPy hy]
          exact ⟨Or.inl rfl, Nat.le_refl _, fun hne => absurd rfl hne⟩
        · rw [h.next b y d hPy hb hy]
          split_ifs with hlt
          · exact ⟨Or.inl rfl, Nat.le_refl _, fun _ => hlt.le⟩
          · exact ⟨Or.inr ⟨rfl, hb⟩, Nat.not_lt.1 hlt, fun _ => Nat.le_refl _⟩
      obtain ⟨hval, hd, hle⟩ := hstep
      have hne : step b y ≠ s := by
        rcases hval with hv | ⟨hv, hb⟩
        · rw [hv]; exact h.cand_ne y d hPy hy
        · rw [hv]; exact hb
      obtain ⟨hr, hrle⟩ := ih2 hne
      refine ⟨?_, fun hb => ⟨hr, hrle.trans (hle hb)⟩, fun x hx c hc => ?_⟩
      · rcases ih1 with hr1 | ⟨x, hx, hc⟩
        · rcases hval with hv | ⟨hv, -⟩
          · exact Or.inr ⟨y, List.mem_cons_self, by rw [hr1, hv, hy]⟩
          · exact Or.inl (hr1.trans hv)
        · exact Or.inr ⟨x, List.mem_cons_of_mem _ hx, hc⟩
      · rcases List.mem_cons.1 hx with rfl | hx
        · rw [hy] at hc
          obtain rfl := Option.some.inj hc
          exact ⟨hr, hrle.trans hd⟩
        · exact ih3 x hx c hc

/-- What is to be found in `xs`: `s` without a candidate, and otherwise a candidate
    with the least key. -/
def Finds (key : α → ℕ) (cand : β → Option α) (s : α) (xs : List β) (r : α) : Prop :=
  (r = s ∧ ∀ x ∈ xs, cand x = none) ∨
    (∃ x ∈ xs, cand x = some r) ∧ ∀ x ∈ xs, ∀ c, cand x = some c → key r ≤ key c

/-- Where there is a candidate, one is found. -/
theorem Finds.of_candidate {xs : List β} {r : α} (h : Finds key cand s xs r) {x : β} {c : α}
    (hx : x ∈ xs) (hc : cand x = some c) :
    (∃ x ∈ xs, cand x = some r) ∧ ∀ x ∈ xs, ∀ c, cand x = some c → key r ≤ key c := by
  rcases h with ⟨-, hnone⟩ | hfound
  · rw [hnone x hx] at hc
    cases hc
  · exact hfound

/-- **What a search finds.** -/
theorem IsSearch.foldl_finds (h : IsSearch P key cand s step) (xs : List β)
    (hP : ∀ x ∈ xs, P x) : Finds key cand s xs (xs.foldl step s) := by
  obtain ⟨h1, -, h3⟩ := h.foldl_inv xs hP s
  rcases h1 with hs | hx
  · refine Or.inl ⟨hs, fun x hx => ?_⟩
    rcases hc : cand x with _ | c
    · rfl
    · exact absurd hs (h3 x hx c hc).1
  · exact Or.inr ⟨hx, fun x hx c hc => (h3 x hx c hc).2⟩

end

/-! ## Walks -/

section
variable {σ : Type}

/-- `next` moves to the least key of `V` above the state, if there is one. -/
structure StepsUp (V : ℕ → Prop) (key : σ → ℕ) (next : σ → σ) (Inv : σ → Prop) : Prop where
  inv : ∀ s, Inv s → Inv (next s)
  moves : ∀ s, Inv s → (∃ p, V p ∧ key s < p) →
    V (key (next s)) ∧ key s < key (next s) ∧ ∀ p, V p → key s < p → key (next s) ≤ p
  stays : ∀ s, Inv s → (∀ p, V p → ¬ key s < p) → next s = s

variable {V : ℕ → Prop} {key : σ → ℕ} {next : σ → σ} {Inv : σ → Prop}

theorem iterate_of_stays {s : σ} (h : next s = s) (n : ℕ) : next^[n] s = s :=
  Function.iterate_fixed h n

/-- **A walk up.**  For some `N`, the first `N` steps visit exactly the keys of
    `V` above the start, in ascending order, and the further steps stay. -/
theorem StepsUp.walk (h : StepsUp V key next Inv) {bound : ℕ} (hV : ∀ p, V p → p < bound) (s : σ)
    (hs : Inv s) :
    ∃ N, (∀ i j, i < j → j ≤ N → key (next^[i] s) < key (next^[j] s)) ∧
      (∀ n, N ≤ n → next^[n] s = next^[N] s) ∧
      ∀ p, (∃ i, 1 ≤ i ∧ i ≤ N ∧ key (next^[i] s) = p) ↔ V p ∧ key s < p := by
  -- by induction on the room above the start
  induction hk : bound - key s using Nat.strongRecOn generalizing s with
  | _ k ih =>
    subst hk
    by_cases hex : ∃ p, V p ∧ key s < p
    · obtain ⟨hVn, hlt, hleast⟩ := h.moves s hs hex
      have hb := hV _ hVn
      obtain ⟨N, hasc, hstay, hvisit⟩ := ih (bound - key (next s)) (by omega) (next s)
        (h.inv s hs) rfl
      refine ⟨N + 1, fun i j hij hj => ?_, fun n hn => ?_, fun p => ⟨?_, ?_⟩⟩
      · obtain ⟨j, rfl⟩ := Nat.exists_eq_add_of_lt (show 0 < j by omega)
        rw [Nat.zero_add, Function.iterate_succ_apply]
        rcases i with _ | i
        · rcases j with _ | j
          · exact hlt
          · exact hlt.trans (hasc 0 (j + 1) (by omega) (by omega))
        · rw [Function.iterate_succ_apply]
          exact hasc i j (by omega) (by omega)
      · obtain ⟨n, rfl⟩ := Nat.exists_eq_add_of_lt (show 0 < n by omega)
        rw [Nat.zero_add, Function.iterate_succ_apply, Function.iterate_succ_apply]
        exact hstay n (by omega)
      · rintro ⟨i, h1, hi, rfl⟩
        obtain ⟨i, rfl⟩ := Nat.exists_eq_add_of_lt (show 0 < i by omega)
        rw [Nat.zero_add, Function.iterate_succ_apply]
        rcases i with _ | i
        · exact ⟨hVn, hlt⟩
        · obtain ⟨h2, h3⟩ := (hvisit _).1 ⟨i + 1, by omega, by omega, rfl⟩
          exact ⟨h2, hlt.trans h3⟩
      · rintro ⟨hp, hsp⟩
        rcases Nat.lt_or_ge (key (next s)) p with hnp | hnp
        · obtain ⟨i, h1, hi, rfl⟩ := (hvisit p).2 ⟨hp, hnp⟩
          exact ⟨i + 1, by omega, by omega, by rw [Function.iterate_succ_apply]⟩
        · exact ⟨1, by omega, by omega, Nat.le_antisymm (hleast p hp hsp) hnp⟩
    · have hfix : next s = s := h.stays s hs fun p hp hlt => hex ⟨p, hp, hlt⟩
      refine ⟨0, fun i j hij hj => by omega, fun n _ => iterate_of_stays hfix n, fun p => ?_⟩
      exact iff_of_false (fun ⟨i, h1, h2, _⟩ => by omega) fun hp => hex ⟨p, hp⟩

/-- `prev` moves to the greatest key of `V` below the state, if there is one. -/
structure StepsDown (V : ℕ → Prop) (key : σ → ℕ) (prev : σ → σ) (Inv : σ → Prop) : Prop where
  inv : ∀ s, Inv s → Inv (prev s)
  moves : ∀ s, Inv s → (∃ p, V p ∧ p < key s) →
    V (key (prev s)) ∧ key (prev s) < key s ∧ ∀ p, V p → p < key s → p ≤ key (prev s)

variable {prev : σ → σ}

/-- A step down undoes a step up that has moved from a key of `V`. -/
theorem StepsUp.prev_next (hup : StepsUp V key next Inv) (hdown : StepsDown V key prev Inv)
    {s : σ} (hs : Inv s) (hV : V (key s)) (hlt : key s < key (next s)) :
    key (prev (next s)) = key s := by
  have hnext : ∃ p, V p ∧ key s < p := by
    by_contra hnone
    have hstay := hup.stays s hs fun p hp hlt => hnone ⟨p, hp, hlt⟩
    rw [hstay] at hlt
    exact Nat.lt_irrefl _ hlt
  obtain ⟨-, -, hleast⟩ := hup.moves s hs hnext
  obtain ⟨hVp, hplt, hgreatest⟩ := hdown.moves (next s) (hup.inv s hs) ⟨key s, hV, hlt⟩
  -- nothing of `V` is between the state and the next one
  rcases Nat.lt_or_eq_of_le (hgreatest (key s) hV hlt) with hbetween | heq
  · exact absurd (hleast _ hVp hbetween) (Nat.not_le.2 hplt)
  · exact heq.symm

theorem StepsUp.inv_iterate (h : StepsUp V key next Inv) {s : σ} (hs : Inv s) (n : ℕ) :
    Inv (next^[n] s) := by
  induction n with
  | zero => exact hs
  | succ n ih =>
    rw [Function.iterate_succ_apply']
    exact h.inv _ ih

/-- **The way back.**  From the end of a walk up, the steps down visit the same
    states in the opposite order, down to the start if its key is one of `V`. -/
theorem StepsUp.walk_back (hup : StepsUp V key next Inv) (hdown : StepsDown V key prev Inv)
    (hkey : ∀ s s', Inv s → Inv s' → key s = key s' → s = s') {s : σ} (hs : Inv s) {N : ℕ}
    (hasc : ∀ i, i < N → key (next^[i] s) < key (next^[i + 1] s))
    (hvalid : ∀ i, 1 ≤ i → i ≤ N → V (key (next^[i] s))) {k : ℕ} (hk : k ≤ N)
    (hstart : k = N → V (key s)) : prev^[k] (next^[N] s) = next^[N - k] s := by
  induction k with
  | zero => rfl
  | succ k ih =>
    obtain ⟨i, hi⟩ : ∃ i, i = N - (k + 1) := ⟨_, rfl⟩
    have hsucc : N - k = i + 1 := by omega
    have hinv := hup.inv_iterate hs
    have hV : V (key (next^[i] s)) := by
      rcases Nat.eq_zero_or_pos i with hzero | hpos
      · rw [hzero]
        exact hstart (by omega)
      · exact hvalid i hpos (by omega)
    have hlt := hasc i (by omega)
    rw [Function.iterate_succ_apply', ih (by omega) (by omega), hsucc, ← hi]
    rw [Function.iterate_succ_apply'] at hlt ⊢
    exact hkey _ _ (hdown.inv _ (hup.inv _ (hinv i))) (hinv i)
      (hup.prev_next hdown (hinv i) hV hlt)

end

end Search
