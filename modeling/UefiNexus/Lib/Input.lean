/-
  Programs that can be left.

  `input w` are the inputs still to come.  `Ends input esc d m`: whatever the
  inputs, `d` times `esc` after them are enough for `m` to return.  What `m` leaves
  is then `Left`: a part of the inputs before the escapes, or some of the escapes.

  * `Ends.bind`: two programs need no more escapes than each of them;
  * `Steady.ends`: a program that returns without inputs needs none;
  * `Ends.loop`: a loop that returns at an escape needs one more than serving an
    input does.
-/
import UefiNexus.Lib.Prog
import Mathlib.Data.List.Basic

namespace Input

variable {W K α β σ : Type}

/-- What is left of the inputs `ks`, then `n` times `esc`, then `rest`, when at most
    `d` of the escapes have been used, and these after the inputs `ks`. -/
def Left (esc : K) (ks : List K) (n : ℕ) (rest : List K) (d : ℕ) (left : List K) : Prop :=
  ∃ xs n', left = xs ++ (List.replicate n' esc ++ rest) ∧ xs <:+ ks ∧ n' ≤ n ∧ n ≤ n' + d ∧
    (xs = [] ∨ n' = n)

/-- `m` returns if there are `d` escapes after the inputs. -/
def Ends (input : W → List K) (esc : K) (d : ℕ) (m : Prog W α) : Prop :=
  ∀ w ks n rest, input w = ks ++ (List.replicate n esc ++ rest) → d ≤ n →
    ∃ a w', m w = (some a, w') ∧ Left esc ks n rest d (input w')

/-- `m` returns and leaves the inputs alone. -/
def Steady (input : W → List K) (m : Prog W α) : Prop :=
  ∀ w, ∃ a w', m w = (some a, w') ∧ input w' = input w

section
variable {input : W → List K} {esc : K} {ks ks' rest left : List K} {n d e : ℕ}

/-! ## What is left -/

theorem Left.refl (ks : List K) (n : ℕ) (rest : List K) :
    Left esc ks n rest 0 (ks ++ (List.replicate n esc ++ rest)) :=
  ⟨ks, n, rfl, List.suffix_rfl, Nat.le_refl n, Nat.le_refl n, .inr rfl⟩

/-- One escape, after the inputs. -/
theorem Left.escape (n : ℕ) (rest : List K) :
    Left esc [] (n + 1) rest 1 (List.replicate n esc ++ rest) :=
  ⟨[], n, rfl, List.suffix_rfl, Nat.le_succ n, Nat.le_refl _, .inl rfl⟩

theorem Left.mono (h : Left esc ks n rest d left) (hks : ks <:+ ks') (hd : d ≤ e) :
    Left esc ks' n rest e left := by
  obtain ⟨xs, n', rfl, hxs, hle, hd', hn⟩ := h
  exact ⟨xs, n', rfl, hxs.trans hks, hle, by omega, hn⟩

/-- What a second program leaves of what a first one has left. -/
theorem Left.trans {xs : List K} {n' : ℕ} (hxs : xs <:+ ks) (hle : n' ≤ n) (hd : n ≤ n' + d)
    (hn : xs = [] ∨ n' = n) (h : Left esc xs n' rest e left) : Left esc ks n rest (d + e) left := by
  obtain ⟨ys, n'', rfl, hys, hle', hd', hn'⟩ := h
  refine ⟨ys, n'', rfl, hys.trans hxs, by omega, by omega, ?_⟩
  rcases hn with rfl | rfl
  · exact Or.inl (List.suffix_nil.1 hys)
  · exact hn'

/-! ## Composition -/

theorem Ends.mono {m : Prog W α} (h : Ends input esc d m) (hd : d ≤ e) : Ends input esc e m := by
  intro w ks n rest hw hn
  obtain ⟨a, w', hm, hleft⟩ := h w ks n rest hw (Nat.le_trans hd hn)
  exact ⟨a, w', hm, hleft.mono List.suffix_rfl hd⟩

theorem Steady.ends {m : Prog W α} (h : Steady input m) : Ends input esc 0 m := by
  intro w ks n rest hw _
  obtain ⟨a, w', hm, hinput⟩ := h w
  rw [hw] at hinput
  exact ⟨a, w', hm, hinput ▸ Left.refl ks n rest⟩

theorem Steady.pure (a : α) : Steady input (pure a : Prog W α) := fun w => ⟨a, w, rfl, rfl⟩

/-- The continuation may rely on what the first program returns. -/
theorem Steady.bind {m : Prog W α} {f : α → Prog W β} {P : α → Prop} (hm : Steady input m)
    (hP : ∀ w a w', m w = (some a, w') → P a) (hf : ∀ a, P a → Steady input (f a)) :
    Steady input (m >>= f) := by
  intro w
  obtain ⟨a, w₁, hrun, hinput⟩ := hm w
  obtain ⟨b, w₂, hrun', hinput'⟩ := hf a (hP _ _ _ hrun) w₁
  exact ⟨b, w₂, by rw [Prog.bind_of_some hrun, hrun'], hinput'.trans hinput⟩

theorem Steady.seq {m : Prog W α} {f : α → Prog W β} (hm : Steady input m)
    (hf : ∀ a, Steady input (f a)) : Steady input (m >>= f) :=
  hm.bind (P := fun _ => True) (fun _ _ _ _ => trivial) fun a _ => hf a

theorem Ends.bind {m : Prog W α} {f : α → Prog W β} {P : α → Prop} (hm : Ends input esc d m)
    (hP : ∀ w a w', m w = (some a, w') → P a) (hf : ∀ a, P a → Ends input esc e (f a)) :
    Ends input esc (d + e) (m >>= f) := by
  intro w ks n rest hw hn
  obtain ⟨a, w₁, hrun, hleft⟩ := hm w ks n rest hw (by omega)
  obtain ⟨xs, n', hxs, hsuffix, hle, hd, hn'⟩ := hleft
  obtain ⟨b, w₂, hrun', hleft'⟩ := hf a (hP _ _ _ hrun) w₁ xs n' rest hxs (by omega)
  exact ⟨b, w₂, by rw [Prog.bind_of_some hrun, hrun'], Left.trans hsuffix hle hd hn' hleft'⟩

theorem Ends.seq {m : Prog W α} {f : α → Prog W β} (hm : Ends input esc d m)
    (hf : ∀ a, Ends input esc e (f a)) : Ends input esc (d + e) (m >>= f) :=
  hm.bind (P := fun _ => True) (fun _ _ _ _ => trivial) fun a _ => hf a

/-! ## Loops -/

/-- A turn of a loop without preparation. -/
theorem loop_pure_succ (serve : σ → Prog W (σ ⊕ α)) (fuel : ℕ) (s : σ) :
    Prog.loop pure serve (fuel + 1) s =
      (serve s >>= fun r => r.elim (Prog.loop pure serve fuel) pure) := by
  funext w
  rw [Prog.loop, Prog.bind_of_some (Prog.pure_apply s w)]
  refine congrFun (congrArg _ (funext fun r => ?_)) w
  cases r with
  | inl s' => rfl
  | inr a => rfl

/-- A loop at an escape. -/
theorem loop_escape {top : σ → Prog W σ} {serve : σ → Prog W (σ ⊕ α)} {I : σ → Prop}
    (htop : ∀ s, I s → ∀ w, ∃ s' w', top s w = (some s', w') ∧ I s' ∧ input w' = input w)
    (hesc : ∀ s, I s → ∀ w ks, input w = esc :: ks →
      ∃ a w', serve s w = (some (.inr a), w') ∧ input w' = ks)
    {fuel : ℕ} (hfuel : 0 < fuel) {s : σ} (hs : I s) {w : W} (hw : input w = esc :: ks) :
    ∃ a w', Prog.loop top serve fuel s w = (some a, w') ∧ input w' = ks := by
  obtain ⟨fuel, rfl⟩ := Nat.exists_eq_add_of_le' hfuel
  obtain ⟨s₁, w₁, hrun, hs₁, hinput⟩ := htop s hs w
  obtain ⟨a, w₂, hserve, hks⟩ := hesc s₁ hs₁ w₁ ks (hinput.trans hw)
  refine ⟨a, w₂, ?_, hks⟩
  rw [Prog.loop, Prog.bind_of_some hrun, Prog.bind_of_some hserve]
  rfl

/-- **A loop can be left** with one escape more than serving an input needs, if it
    returns at an escape: every turn takes one of the inputs before them, of which
    there are less than `N`. -/
theorem Ends.loop {top : σ → Prog W σ} {serve : σ → Prog W (σ ⊕ α)} {I : σ → Prop} {N : ℕ}
    (htop : ∀ s, I s → ∀ w, ∃ s' w', top s w = (some s', w') ∧ I s' ∧ input w' = input w)
    (hserve : ∀ s, I s → ∀ w k ks n rest,
      input w = k :: (ks ++ (List.replicate n esc ++ rest)) → d ≤ n → ks.length < N →
      ∃ r w', serve s w = (some r, w') ∧ Left esc ks n rest d (input w'))
    (hkeep : ∀ s w s' w', I s → serve s w = (some (.inl s'), w') → I s')
    (hesc : ∀ s, I s → ∀ w ks, input w = esc :: ks →
      ∃ a w', serve s w = (some (.inr a), w') ∧ input w' = ks) :
    ∀ (fuel : ℕ) (s : σ), I s → ∀ (w : W) (ks : List K) (n : ℕ) (rest : List K),
      input w = ks ++ (List.replicate n esc ++ rest) → d + 1 ≤ n → ks.length < fuel →
      ks.length < N → ∃ a w', Prog.loop top serve fuel s w = (some a, w') ∧
        Left esc ks n rest (d + 1) (input w') := by
  intro fuel
  induction fuel with
  | zero => exact fun _ _ _ _ _ _ _ _ h _ => absurd h (Nat.not_lt_zero _)
  | succ fuel ih =>
    intro s hs w ks n rest hw hn hfuel hN
    cases ks with
    | nil =>
      obtain ⟨n, rfl⟩ := Nat.exists_eq_add_of_le' (Nat.le_trans (Nat.le_add_left 1 d) hn)
      obtain ⟨a, w', hrun, hleft⟩ := loop_escape htop hesc (Nat.succ_pos fuel) hs hw
      exact ⟨a, w', hrun, hleft ▸ (Left.escape n rest).mono List.suffix_rfl (by omega)⟩
    | cons k ks =>
      rw [List.length_cons] at hfuel hN
      obtain ⟨s₁, w₁, htop₁, hs₁, hinput⟩ := htop s hs w
      rw [hw, List.cons_append] at hinput
      obtain ⟨r, w₂, hserve₁, hleft⟩ := hserve s₁ hs₁ w₁ k ks n rest hinput (by omega)
        (by omega)
      rw [Prog.loop, Prog.bind_of_some htop₁, Prog.bind_of_some hserve₁]
      cases r with
      | inr a => exact ⟨a, w₂, rfl, hleft.mono (List.suffix_cons k ks) (Nat.le_succ d)⟩
      | inl s₂ =>
        have hs₂ := hkeep _ _ _ _ hs₁ hserve₁
        obtain ⟨xs, n', hxs, hsuffix, hle, hd, rfl | rfl⟩ := hleft
        · -- the next input is an escape
          obtain ⟨n', rfl⟩ := Nat.exists_eq_add_of_le' (show 1 ≤ n' by omega)
          obtain ⟨a, w', hrun, hend⟩ := loop_escape htop hesc (show 0 < fuel by omega) hs₂ hxs
          exact ⟨a, w', hrun, [], n', hend, List.nil_suffix, by omega, by omega, .inl rfl⟩
        · have hlength := hsuffix.length_le
          obtain ⟨a, w', hrun, hend⟩ := ih s₂ hs₂ w₂ xs n' rest hxs hn (by omega)
            (by omega)
          exact ⟨a, w', hrun, hend.mono (hsuffix.trans (List.suffix_cons k ks)) (Nat.le_refl _)⟩

end

end Input
