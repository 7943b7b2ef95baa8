/-
  The tool: what the application is for.

  The tool is on its menu.  The key of the one page opens a viewer on what the
  firmware has at this opening, and the tool is back on its menu when the viewer is
  left; ESC leaves the tool.  Physical memory and the keys go from one viewer to the
  next.

  Like the viewer, the tool is not translated from the source.  A machine for the
  whole session, it takes a viewer's run for one step: `Refine.ending` is what the
  viewer is left with, if it is left.
-/
import UefiNexus.Abstract.Viewer
import UefiNexus.Lib.Refine

namespace UefiNexus

open Refine (Final ending)

/-! ## Leaving a viewer -/

namespace Viewer

/-- ESC leaves the viewer, with the memory and the keys after it. -/
def left (v : Viewer) : Option (PhysMem × List EfiInputKey) :=
  match v.keys with
  | [] => none
  | key :: keys => if key.scanCode = scanEsc then some (v.memory, keys) else none

section
variable {m : Viewed} {v v' : Viewer}

theorem left_eq_some {r : PhysMem × List EfiInputKey} :
    left v = some r ↔ ∃ key, key.scanCode = scanEsc ∧ v.keys = key :: r.2 ∧ v.memory = r.1 := by
  obtain ⟨memory, keys⟩ := r
  unfold left
  constructor
  · intro h
    rcases hkeys : v.keys with _ | ⟨key, rest⟩ <;> rw [hkeys] at h
    · cases h
    · dsimp only at h
      split_ifs at h with hesc
      cases h
      exact ⟨key, hesc, rfl, rfl⟩
  · rintro ⟨key, hesc, hkeys, rfl⟩
    rw [hkeys]
    exact if_pos hesc

theorem left_final (m : Viewed) : Final (step m) left := by
  intro v r h
  obtain ⟨key, hesc, hkeys, -⟩ := left_eq_some.1 h
  unfold step
  rw [hkeys]
  exact if_pos hesc

/-- A prompt takes keys. -/
theorem prompt_length {maxDigits : ℕ} :
    ∀ (keys : List EfiInputKey) (line : List NxUiChar) (r : Option ℕ × List EfiInputKey),
      prompt maxDigits line keys = some r → r.2.length < keys.length := by
  intro keys
  induction keys with
  | nil =>
    intro line r h
    cases h
  | cons key keys ih =>
    intro line r h
    unfold prompt at h
    split_ifs at h
    · cases h
      exact Nat.lt_succ_self _
    · cases h
      exact Nat.lt_succ_self _
    · exact Nat.lt_succ_of_lt (ih _ r h)

/-- So does a list. -/
theorem afterList_length (keys rest : List EfiInputKey) :
    ∀ n, afterList n keys = some rest → rest.length < keys.length := by
  induction keys with
  | nil =>
    intro n h
    cases n <;> cases h
  | cons key keys ih =>
    intro n h
    cases n with
    | zero =>
      cases h
      exact Nat.lt_succ_self _
    | succ n =>
      unfold afterList at h
      split_ifs at h
      · cases h
        exact Nat.lt_succ_self _
      · exact Nat.lt_succ_of_lt (ih n h)

theorem obey_length {c : Option Command} (h : obey m v c = some v') :
    v'.keys.length ≤ v.keys.length := by
  rcases c with _ | c
  · cases h
    exact Nat.le_refl _
  cases c with
  | edit =>
    unfold obey edit at h
    dsimp only at h
    split_ifs at h
    · obtain ⟨r, hr, rfl⟩ := Option.map_eq_some_iff.1 h
      exact (prompt_length _ _ r hr).le
    · cases h
      exact Nat.le_refl _
  | goto =>
    obtain ⟨r, hr, rfl⟩ := Option.map_eq_some_iff.1 h
    exact (prompt_length _ _ r hr).le
  | pageDown =>
    cases h
    cases above m.blocks v.block <;> exact Nat.le_refl _
  | pageUp =>
    cases h
    cases below m.blocks v.block <;> exact Nat.le_refl _
  | ranges =>
    obtain ⟨rest, hrest, rfl⟩ := Option.map_eq_some_iff.1 h
    exact (afterList_length _ _ _ hrest).le
  | width width =>
    cases h
    exact Nat.le_refl _

/-- Every step takes a key. -/
theorem step_length (h : step m v = some v') : v'.keys.length < v.keys.length := by
  rcases hkeys : v.keys with _ | ⟨key, keys⟩
  · unfold step at h
    rw [hkeys] at h
    cases h
  by_cases hesc : key.scanCode = scanEsc
  · unfold step at h
    rw [hkeys] at h
    dsimp only at h
    rw [if_pos hesc] at h
    cases h
  rcases harrow : arrow v.width key with _ | bytes
  · rw [step_command hkeys hesc harrow] at h
    exact Nat.lt_succ_of_le (obey_length h)
  · rw [step_arrow hkeys hesc harrow] at h
    cases h
    exact Nat.lt_succ_self _

/-- A viewer that is left has taken a key. -/
theorem ending_length {r : PhysMem × List EfiInputKey}
    (h : ending (step m) left v = some r) : r.2.length < v.keys.length := by
  obtain ⟨n, v', hrun, hleft⟩ := (Refine.ending_eq_some (left_final m)).1 h
  obtain ⟨key, -, hkeys, -⟩ := left_eq_some.1 hleft
  have hle := Refine.run_measure (μ := fun v => v.keys.length) (fun _ _ => step_length) n v v' hrun
  rw [hkeys, List.length_cons] at hle
  omega

end

end Viewer

/-! ## The tool -/

/-- What the tool finds at an opening: what there is to view, and the block the
    viewer opens on. -/
structure Opening where
  viewed : Viewed
  first : ℕ

/-- The state of the tool, when it is on its menu. -/
structure Tool where
  /-- The number of openings so far. -/
  opened : ℕ
  memory : PhysMem
  keys : List EfiInputKey

namespace Tool

/-- The answer of the menu, which has one page: to open it or to leave, and the keys
    after; no answer if the keys run out. -/
def menu : List EfiInputKey → Option (Bool × List EfiInputKey)
  | [] => none
  | key :: keys =>
    if key.unicodeChar = L '1' ∨ key.unicodeChar = charCarriageReturn then some (true, keys)
    else if key.scanCode = scanEsc then some (false, keys)
    else menu keys

/-- The page, opened.  An opening that fails is over at once. -/
noncomputable def openPage (openings : ℕ → Option Opening) (t : Tool) : Option Tool :=
  match openings t.opened with
  | none => some { t with opened := t.opened + 1 }
  | some o =>
    (ending (Viewer.step o.viewed) Viewer.left ⟨o.first, 0, 1, t.memory, t.keys⟩).map
      fun r => ⟨t.opened + 1, r.1, r.2⟩

/-- A page that is opened and left. -/
noncomputable def step (openings : ℕ → Option Opening) (t : Tool) : Option Tool :=
  match menu t.keys with
  | some (true, keys) => openPage openings { t with keys := keys }
  | _ => none

/-- The tool is left. -/
def left (t : Tool) : Option Tool :=
  match menu t.keys with
  | some (false, keys) => some { t with keys := keys }
  | _ => none

section
variable {openings : ℕ → Option Opening} {t t' : Tool} {keys : List EfiInputKey}

theorem step_of_open (h : menu t.keys = some (true, keys)) :
    step openings t = openPage openings { t with keys := keys } := by
  unfold step
  rw [h]

theorem step_of_leave (h : menu t.keys = some (false, keys)) : step openings t = none := by
  unfold step
  rw [h]

theorem step_of_none (h : menu t.keys = none) : step openings t = none := by
  unfold step
  rw [h]

theorem left_of_leave (h : menu t.keys = some (false, keys)) :
    left t = some { t with keys := keys } := by
  unfold left
  rw [h]

theorem left_of_open (h : menu t.keys = some (true, keys)) : left t = none := by
  unfold left
  rw [h]

theorem left_of_none (h : menu t.keys = none) : left t = none := by
  unfold left
  rw [h]

theorem left_final (openings : ℕ → Option Opening) : Final (step openings) left := by
  intro t t' h
  rcases hmenu : menu t.keys with _ | ⟨_ | _, keys⟩
  · rw [left_of_none hmenu] at h
    cases h
  · exact step_of_leave hmenu
  · rw [left_of_open hmenu] at h
    cases h

theorem menu_length {r : Bool × List EfiInputKey} (h : menu keys = some r) :
    r.2.length < keys.length := by
  induction keys with
  | nil => cases h
  | cons key keys ih =>
    unfold menu at h
    split_ifs at h
    · cases h
      exact Nat.lt_succ_self _
    · cases h
      exact Nat.lt_succ_self _
    · exact Nat.lt_succ_of_lt (ih h)

theorem openPage_length (h : openPage openings t = some t') :
    t'.keys.length ≤ t.keys.length := by
  unfold openPage at h
  rcases ho : openings t.opened with _ | o <;> rw [ho] at h
  · cases h
    exact Nat.le_refl _
  · obtain ⟨r, hr, rfl⟩ := Option.map_eq_some_iff.1 h
    exact (Viewer.ending_length hr).le

/-- Every step takes a key. -/
theorem step_length (h : step openings t = some t') : t'.keys.length < t.keys.length := by
  rcases hmenu : menu t.keys with _ | ⟨_ | _, keys⟩
  · rw [step_of_none hmenu] at h
    cases h
  · rw [step_of_leave hmenu] at h
    cases h
  · rw [step_of_open hmenu] at h
    exact Nat.lt_of_le_of_lt (openPage_length h) (menu_length hmenu)

end

end Tool

end UefiNexus
