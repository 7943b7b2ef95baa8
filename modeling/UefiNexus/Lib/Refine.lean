/-
  Loops that refine a machine.

  A machine is a partial step function; `run step n v` is its state after `n`
  steps, if it gets so far.

  * `Refines`: seen through `view`, a turn of a loop is a step of the machine, and
    the machine stops where the loop does; `Refines.visits`: then the states in
    which the loop serves its inputs are those of the run;
  * `ending step stop v`: what the machine stops with, if it ever stops;
    `Refines.ending`: if the loop returns where the machine stops (`Quits`), it
    returns with just that;
  * `Drives step load n ks v v'`: with the inputs `ks` next, the machine takes `n`
    steps and just these inputs, and gets from `v` to `v'`, whatever follows.
-/
import UefiNexus.Lib.Prog
import Mathlib.Tactic.ByContra
import Mathlib.Tactic.SplitIfs

namespace Refine

variable {V W K U α σ : Type}

/-! ## Runs -/

/-- The state after `n` steps. -/
def run (step : V → Option V) : ℕ → V → Option V
  | 0, v => some v
  | n + 1, v => (step v).bind (run step n)

theorem run_add (step : V → Option V) (n k : ℕ) :
    ∀ v, run step (n + k) v = (run step n v).bind (run step k) := by
  induction n with
  | zero =>
    intro v
    rw [Nat.zero_add]
    rfl
  | succ n ih =>
    intro v
    rw [Nat.succ_add]
    show (step v).bind (run step (n + k)) = ((step v).bind (run step n)).bind (run step k)
    cases step v with
    | none => rfl
    | some v' => exact ih v'

/-! ## Refinement -/

/-- In the states `I`, a turn of the loop is a step of the machine. -/
structure Refines (top : σ → Prog W σ) (serve : σ → Prog W (σ ⊕ α)) (I : σ → W → Prop)
    (view : σ → W → V) (step : V → Option V) : Prop where
  top : ∀ s w, I s w → ∃ s' w', top s w = (some s', w') ∧ I s' w' ∧ view s' w' = view s w
  goesOn : ∀ s w s' w', I s w → serve s w = (some (.inl s'), w') →
    I s' w' ∧ step (view s w) = some (view s' w')
  stops : ∀ s w, I s w → (∀ s' w', serve s w ≠ (some (.inl s'), w')) → step (view s w) = none

section
variable {top : σ → Prog W σ} {serve : σ → Prog W (σ ⊕ α)} {I : σ → W → Prop} {view : σ → W → V}
  {step : V → Option V}

/-- **The loop runs like the machine.** -/
theorem Refines.visits (h : Refines top serve I view step) (n : ℕ) :
    ∀ s w, I s w →
      (Prog.visits top serve n s w).map (fun p => view p.1 p.2) = run step n (view s w) := by
  induction n with
  | zero =>
    intro s w hI
    obtain ⟨s₁, w₁, htop, -, hview⟩ := h.top s w hI
    rw [Prog.visits_zero.2 htop, ← hview]
    rfl
  | succ n ih =>
    intro s w hI
    obtain ⟨s₁, w₁, htop, hI₁, hview⟩ := h.top s w hI
    rw [Prog.visits, Prog.done_eq_some.2 htop, ← hview, run]
    show Option.map _ ((Prog.done (serve s₁) w₁).bind _) = _
    rcases hserve : serve s₁ w₁ with ⟨_ | s₂ | a, w₂⟩
    · rw [h.stops s₁ w₁ hI₁ (by intro s' w' heq; rw [hserve] at heq; cases heq), Prog.done, hserve]
      rfl
    · obtain ⟨hI₂, hstep⟩ := h.goesOn s₁ w₁ s₂ w₂ hI₁ hserve
      rw [hstep, Prog.done_eq_some.2 hserve]
      exact ih s₂ w₂ hI₂
    · rw [h.stops s₁ w₁ hI₁ (by intro s' w' heq; rw [hserve] at heq; cases heq),
        Prog.done_eq_some.2 hserve]
      rfl

/-- The loop stays in the states of the refinement. -/
theorem Refines.inv (h : Refines top serve I view step) {n : ℕ} {s s' : σ} {w w' : W}
    (hI : I s w) (hvisit : Prog.visits top serve n s w = some (s', w')) : I s' w' := by
  have htop : ∀ s w s' w', I s w → top s w = (some s', w') → I s' w' := by
    intro s w s' w' hI heq
    obtain ⟨s₁, w₁, heq₁, hI₁, -⟩ := h.top s w hI
    rw [heq] at heq₁
    cases heq₁
    exact hI₁
  refine Prog.visits_induct (fun s₁ w₁ => htop s w s₁ w₁ hI) ?_ n s' w' hvisit
  intro s₁ w₁ s₂ w₂ s₃ w₃ hI₁ hserve hnext
  exact htop _ _ _ _ (h.goesOn _ _ _ _ hI₁ hserve).1 hnext

end

/-! ## Ends -/

/-- Running, the machine comes to a state in which it stops with `u`. -/
def Ends (step : V → Option V) (stop : V → Option U) (v : V) (u : U) : Prop :=
  ∃ n v', run step n v = some v' ∧ stop v' = some u

open Classical in
/-- What the machine stops with, if it stops. -/
noncomputable def ending (step : V → Option V) (stop : V → Option U) (v : V) : Option U :=
  if h : ∃ u, Ends step stop v u then some h.choose else none

/-- Where the machine stops, it does not go on. -/
def Final (step : V → Option V) (stop : V → Option U) : Prop :=
  ∀ v u, stop v = some u → step v = none

section
variable {step : V → Option V} {stop : V → Option U} {v v' : V} {u u' : U}

/-- Nothing is run after a stop. -/
theorem Final.run_le (h : Final step stop) {n k : ℕ} {v₁ : V} (hn : run step n v = some v')
    (hstop : stop v' = some u) (hk : run step k v = some v₁) : k ≤ n := by
  by_contra hlt
  obtain ⟨m, rfl⟩ := Nat.exists_eq_add_of_lt (Nat.lt_of_not_le hlt)
  rw [Nat.add_assoc, run_add, hn, Option.bind_some, run, h v' u hstop] at hk
  cases hk

theorem Ends.unique (hfinal : Final step stop) (h : Ends step stop v u)
    (h' : Ends step stop v u') : u = u' := by
  obtain ⟨n, v₁, hn, hu⟩ := h
  obtain ⟨k, v₂, hk, hu'⟩ := h'
  obtain rfl : k = n := Nat.le_antisymm (hfinal.run_le hn hu hk) (hfinal.run_le hk hu' hn)
  rw [hn] at hk
  cases hk
  rw [hu] at hu'
  exact Option.some.inj hu'

theorem ending_eq_some (hfinal : Final step stop) :
    ending step stop v = some u ↔ Ends step stop v u := by
  unfold ending
  constructor
  · intro h
    split_ifs at h with hex
    obtain rfl := Option.some.inj h
    exact hex.choose_spec
  · intro h
    have hex : ∃ u, Ends step stop v u := ⟨u, h⟩
    rw [dif_pos hex, hex.choose_spec.unique hfinal h]

/-- A run is no longer than what it takes of a measure. -/
theorem run_measure {μ : V → ℕ} (hstep : ∀ v v', step v = some v' → μ v' < μ v) (n : ℕ) :
    ∀ v v', run step n v = some v' → μ v' + n ≤ μ v := by
  induction n with
  | zero =>
    rintro v _ ⟨⟩
    exact Nat.le_refl _
  | succ n ih =>
    intro v v' h
    obtain ⟨v₁, h₁, h⟩ := Option.bind_eq_some_iff.1 h
    have hle := ih v₁ v' h
    have hlt := hstep v v₁ h₁
    omega

end

/-- In the states `I`, the loop returns where the machine stops, and `out` is what
    it stops with. -/
structure Quits (serve : σ → Prog W (σ ⊕ α)) (I : σ → W → Prop) (view : σ → W → V)
    (stop : V → Option U) (out : α → W → U) : Prop where
  returns : ∀ s w a w', I s w → serve s w = (some (.inr a), w') →
    stop (view s w) = some (out a w')
  stops : ∀ s w u, I s w → stop (view s w) = some u →
    ∃ a w', serve s w = (some (.inr a), w') ∧ out a w' = u

/-- **The loop ends like the machine**, with fuel for its runs. -/
theorem Refines.ending {top : σ → Prog W σ} {serve : σ → Prog W (σ ⊕ α)} {I : σ → W → Prop}
    {view : σ → W → V} {step : V → Option V} {stop : V → Option U} {out : α → W → U}
    (h : Refines top serve I view step) (hquits : Quits serve I view stop out)
    (hfinal : Final step stop) {n : ℕ} {s : σ} {w : W} (hI : I s w)
    (hfuel : ∀ k v, run step k (view s w) = some v → k < n) :
    (Prog.done (Prog.loop top serve n s) w).map (fun p => out p.1 p.2) =
      Refine.ending step stop (view s w) := by
  ext u
  rw [Option.map_eq_some_iff, ending_eq_some hfinal]
  constructor
  · rintro ⟨⟨a, w'⟩, hdone, rfl⟩
    obtain ⟨k, -, s₁, w₁, hvisit, hserve⟩ := Prog.loop_eq_some.1 (Prog.done_eq_some.1 hdone)
    refine ⟨k, view s₁ w₁, ?_, hquits.returns s₁ w₁ a w' (h.inv hI hvisit) hserve⟩
    rw [← h.visits k s w hI, hvisit]
    rfl
  · rintro ⟨k, v, hrun, hstop⟩
    have hlt := hfuel k v hrun
    rw [← h.visits k s w hI] at hrun
    obtain ⟨⟨s₁, w₁⟩, hvisit, rfl⟩ := Option.map_eq_some_iff.1 hrun
    obtain ⟨a, w', hserve, rfl⟩ := hquits.stops s₁ w₁ u (h.inv hI hvisit) hstop
    exact ⟨(a, w'), Prog.done_eq_some.2 (Prog.loop_eq_some.2 ⟨k, hlt, s₁, w₁, hvisit, hserve⟩), rfl⟩

/-! ## Machines with an input -/

/-- With the inputs `ks` next, the machine gets from `v` to `v'` in `n` steps, and
    leaves the inputs after them; `load` puts the inputs into a state. -/
def Drives (step : V → Option V) (load : List K → V → V) (n : ℕ) (ks : List K) (v v' : V) : Prop :=
  ∀ rest, run step n (load (ks ++ rest) v) = some (load rest v')

section
variable {step : V → Option V} {load : List K → V → V} {n k : ℕ} {ks ls : List K} {v v₁ v' : V}

theorem Drives.refl (v : V) : Drives step load 0 [] v v := fun _ => rfl

theorem Drives.trans (h : Drives step load n ks v v₁) (h' : Drives step load k ls v₁ v') :
    Drives step load (n + k) (ks ++ ls) v v' := by
  intro rest
  rw [run_add, List.append_assoc, h (ls ++ rest)]
  exact h' rest

/-- One step. -/
theorem Drives.single (h : ∀ rest, step (load (ks ++ rest) v) = some (load rest v')) :
    Drives step load 1 ks v v' := by
  intro rest
  rw [run, h rest]
  rfl

/-- A step that can be repeated. -/
theorem Drives.replicate {key : K} {f : ℕ → V} {m : ℕ}
    (h : ∀ i < m, Drives step load 1 [key] (f i) (f (i + 1))) :
    Drives step load m (List.replicate m key) (f 0) (f m) := by
  induction m with
  | zero => exact Drives.refl (f 0)
  | succ m ih =>
    rw [List.replicate_succ']
    exact (ih fun i hi => h i (by omega)).trans (h m (by omega))

end

end Refine
