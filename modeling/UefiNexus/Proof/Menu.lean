/-
  The page menu.

  The menu is a selector (`menuMoved`): the arrow keys move the selection by one
  inside the registry.  `After registry sel w keys w'`: from the selection `sel`
  and the machine `w`, the keys have moved the selection and nothing else has been
  decided, and the last screen marks the page that is selected.  So the menu goes
  on key by key (`pageMenuServe_spec`), and what Enter opens is what the screen
  marks (`menu_opens_marked`).
-/
import UefiNexus.Application.PageMenu
import Mathlib.Data.List.Basic
import Mathlib.Tactic.SplitIfs

namespace UefiNexus

variable {W : Type} {registry : PageRegistry W} {sel : ℕ} {key : EfiInputKey}
  {keys : List EfiInputKey} {w w' : UefiWorld}

/-! ## The selector -/

/-- The selection after a key. -/
def menuMoved (count sel : ℕ) (key : EfiInputKey) : ℕ :=
  if key.scanCode = scanUp then sel - 1
  else if key.scanCode = scanDown then min (sel + 1) (count - 1)
  else sel

/-- The index a key returns. -/
inductive MenuAnswer (count sel : ℕ) (key : EfiInputKey) : NxIntn → Prop
  | digit (d : ℕ) : d < 9 → d < count → key.unicodeChar = L '1' + BitVec.ofNat 16 d →
      MenuAnswer count sel key (BitVec.ofNat 64 d)
  | enter : key.unicodeChar = charCarriageReturn → MenuAnswer count sel key (BitVec.ofNat 64 sel)
  | esc : key.scanCode = scanEsc → MenuAnswer count sel key (-1)

/-- The key moves the selection, or it is none the menu knows. -/
def Passes (count sel : ℕ) (key : EfiInputKey) : Prop :=
  menuMoved count sel key ≠ sel ∨ ∀ i, ¬ MenuAnswer count sel key i

theorem menuMoved_lt {count : ℕ} (h : sel < count) (key : EfiInputKey) :
    menuMoved count sel key < count := by
  rw [menuMoved]
  split_ifs <;> omega

/-! ## The screen -/

/-- The screen of the menu: the page number `sel` is marked. -/
def menuScreen (registry : PageRegistry W) (sel : ℕ) : List ConsoleOp :=
  [.clearScreen, .print (wide "UefiNexus Tool Menu\n\n") []] ++
    registry.pages.zipIdx.map (fun p =>
      .print (wide (if p.2 = sel then "> %u. %s\n" else "  %u. %s\n"))
        [.number (BitVec.ofNat 64 ((p.2 + 1) % 2 ^ 32)), .string p.1.title]) ++
    [.print (wide "\nUp/Down: Navigate  Enter: Select  Esc: Exit\n") []]

theorem pageCount_toNat (registry : PageRegistry W) :
    registry.pageCount.toNat = registry.pages.length := by
  have := registry.fits
  rw [PageRegistry.pageCount, BitVec.toNat_ofNat, Nat.mod_eq_of_lt (by omega)]

/-- The index of a page as an `UINTN`. -/
theorem index_toNat (h : sel < registry.pages.length) : (BitVec.ofNat 64 sel).toNat = sel := by
  have := registry.fits
  rw [BitVec.toNat_ofNat, Nat.mod_eq_of_lt (by omega)]

theorem menuLine_eq {index : ℕ} (hsel : sel < registry.pages.length)
    (hindex : index < registry.pages.length) (page : NexusPageDescriptor W) :
    menuLine (BitVec.ofNat 64 sel) page index =
      .print (wide (if index = sel then "> %u. %s\n" else "  %u. %s\n"))
        [.number (BitVec.ofNat 64 ((index + 1) % 2 ^ 32)), .string page.title] := by
  have hnumber : ((BitVec.ofNat 64 index + 1).setWidth 32).setWidth 64 =
      BitVec.ofNat 64 ((index + 1) % 2 ^ 32) := by
    apply BitVec.eq_of_toNat_eq
    rw [show (1 : NxU64) = BitVec.ofNat 64 1 from rfl, ← BitVec.ofNat_add]
    simp only [BitVec.toNat_setWidth, BitVec.toNat_ofNat]
    omega
  have hmark : BitVec.ofNat 64 index = BitVec.ofNat 64 sel ↔ index = sel := by
    rw [← BitVec.toNat_inj, index_toNat hsel, index_toNat hindex]
  simp only [menuLine, hnumber, hmark]
  split_ifs <;> rfl

theorem consoleRequest_apply (op : ConsoleOp) (w : UefiWorld) :
    consoleRequest op w = (some (), { w with console := w.console ++ [op] }) := rfl

theorem each_consoleRequest {ι : Type} (f : ι → ConsoleOp) : ∀ (is : List ι) (w : UefiWorld),
    Prog.each (fun i => consoleRequest (f i)) is w =
      (some (), { w with console := w.console ++ is.map f })
  | [], w => by
    simp only [Prog.each, Prog.pure_apply, List.map_nil, List.append_nil]
  | i :: is, w => by
    rw [Prog.each, Prog.bind_of_some (consoleRequest_apply _ w), each_consoleRequest f is]
    simp only [List.append_assoc, List.map_cons, List.singleton_append]

theorem drawMenu_apply (hsel : sel < registry.pages.length) (w : UefiWorld) :
    drawMenu registry (BitVec.ofNat 64 sel) w =
      (some (), { w with console := w.console ++ menuScreen registry sel }) := by
  have hlines : registry.pages.zipIdx.map (fun p => menuLine (BitVec.ofNat 64 sel) p.1 p.2) =
      registry.pages.zipIdx.map (fun p =>
        .print (wide (if p.2 = sel then "> %u. %s\n" else "  %u. %s\n"))
          [.number (BitVec.ofNat 64 ((p.2 + 1) % 2 ^ 32)), .string p.1.title]) := by
    refine List.map_congr_left fun p hp => menuLine_eq hsel ?_ p.1
    obtain ⟨-, hlt, -⟩ := List.mem_zipIdx hp
    omega
  rw [drawMenu, tuiClearScreen, Prog.bind_of_some (consoleRequest_apply _ w), print,
    Prog.bind_of_some (consoleRequest_apply _ _), Prog.bind_of_some (each_consoleRequest _ _ _),
    hlines, print, consoleRequest_apply]
  simp only [menuScreen, List.append_assoc, List.cons_append, List.nil_append]

/-! ## One key -/

theorem index_pred (hpos : 0 < sel) :
    BitVec.ofNat 64 sel - 1 = BitVec.ofNat 64 (sel - 1) := by
  have hone : (1 : NxUintn) = BitVec.ofNat 64 1 := rfl
  have hsplit : BitVec.ofNat 64 sel = BitVec.ofNat 64 (sel - 1) + BitVec.ofNat 64 1 := by
    rw [← BitVec.ofNat_add, Nat.sub_add_cancel hpos]
  rw [hone, hsplit, BitVec.add_sub_cancel]

theorem index_succ (sel : ℕ) : BitVec.ofNat 64 sel + 1 = BitVec.ofNat 64 (sel + 1) :=
  (BitVec.ofNat_add sel 1).symm

/-- The test that the selection is not the last page. -/
theorem lt_last_iff (hsel : sel < registry.pages.length) :
    BitVec.ofNat 64 sel < registry.pageCount - 1 ↔ sel + 1 < registry.pages.length := by
  have hcount := registry.fits
  rw [PageRegistry.pageCount, index_pred (by omega), BitVec.lt_def, index_toNat hsel,
    index_toNat (Nat.sub_lt (by omega) Nat.one_pos)]
  omega

theorem digit_value {d : ℕ} (hd : d < 9) :
    (L '1' + BitVec.ofNat 16 d).toNat = 49 + d ∧
      (L '1' + BitVec.ofNat 16 d - L '1').setWidth 64 = BitVec.ofNat 64 d := by
  have hone : (L '1').toNat = 49 := rfl
  constructor
  · rw [BitVec.toNat_add, BitVec.toNat_ofNat, hone]
    omega
  · apply BitVec.eq_of_toNat_eq
    rw [BitVec.add_comm, BitVec.add_sub_cancel, BitVec.toNat_setWidth, BitVec.toNat_ofNat,
      BitVec.toNat_ofNat]
    omega

/-- The test of a digit. -/
theorem digitTest_iff (registry : PageRegistry W) (c : NxUiChar) :
    (c ≥ L '1' ∧ c ≤ L '9' ∧ (c - L '1').setWidth 64 < registry.pageCount) ↔
      ∃ d < 9, d < registry.pages.length ∧ c = L '1' + BitVec.ofNat 16 d := by
  have hone : (L '1').toNat = 49 := rfl
  have hnine : (L '9').toNat = 57 := rfl
  rw [ge_iff_le, BitVec.le_def, BitVec.le_def, BitVec.lt_def, pageCount_toNat, hone, hnine]
  constructor
  · rintro ⟨hlow, hhigh, hlt⟩
    have hc : c = L '1' + BitVec.ofNat 16 (c.toNat - 49) := by
      apply BitVec.eq_of_toNat_eq
      rw [(digit_value (by omega)).1]
      omega
    rw [hc, (digit_value (by omega)).2, BitVec.toNat_ofNat, Nat.mod_eq_of_lt (by omega)] at hlt
    exact ⟨c.toNat - 49, by omega, hlt, hc⟩
  · rintro ⟨d, hd, hlt, rfl⟩
    rw [(digit_value hd).1, (digit_value hd).2, BitVec.toNat_ofNat, Nat.mod_eq_of_lt (by omega)]
    exact ⟨by omega, by omega, hlt⟩

/-- The keys have passed, from the selection `sel`. -/
structure After (registry : PageRegistry W) (sel : ℕ) (w : UefiWorld) (keys : List EfiInputKey)
    (w' : UefiWorld) : Prop where
  lt : keys.foldl (menuMoved registry.pages.length) sel < registry.pages.length
  passes : ∀ before key after, keys = before ++ key :: after →
    Passes registry.pages.length (before.foldl (menuMoved registry.pages.length) sel) key
  kept : w.console <+: w'.console
  marked : menuScreen registry (keys.foldl (menuMoved registry.pages.length) sel) <:+ w'.console
  rest : w' = { w with console := w'.console, keys := w'.keys }

theorem After.refl (hlt : sel < registry.pages.length)
    (hmarked : menuScreen registry sel <:+ w.console) : After registry sel w [] w where
  lt := hlt
  passes before key after h := by cases before <;> cases h
  kept := List.prefix_rfl
  marked := hmarked
  rest := rfl

theorem After.single {console : List ConsoleOp} (hlt : sel < registry.pages.length)
    (hpasses : Passes registry.pages.length sel key) (hkept : w.console <+: console)
    (hmarked : menuScreen registry (menuMoved registry.pages.length sel key) <:+ console) :
    After registry sel w [key] { w with console := console, keys := keys } where
  lt := menuMoved_lt hlt key
  passes before k after h := by
    cases before with
    | nil =>
      obtain ⟨rfl, -⟩ := List.cons.inj h
      exact hpasses
    | cons _ before =>
      obtain ⟨-, h⟩ := List.cons.inj h
      cases before <;> cases h
  kept := hkept
  marked := hmarked
  rest := rfl

theorem After.trans {w₁ : UefiWorld} (h : After registry sel w [key] w₁)
    (h' : After registry (menuMoved registry.pages.length sel key) w₁ keys w') :
    After registry sel w (key :: keys) w' where
  lt := h'.lt
  passes before k after hkeys := by
    cases before with
    | nil =>
      obtain ⟨rfl, -⟩ := List.cons.inj hkeys
      exact h.passes [] key [] rfl
    | cons k' before =>
      obtain ⟨rfl, htail⟩ := List.cons.inj hkeys
      exact h'.passes before k after htail
  kept := h.kept.trans h'.kept
  marked := h'.marked
  rest := by
    rw [h'.rest, h.rest]

/-- A key that moves the selection: the new selection is shown. -/
theorem redrawn {sel' : ℕ} (hsel : sel < registry.pages.length)
    (hmoved : menuMoved registry.pages.length sel key = sel') (hne : sel' ≠ sel) :
    ∃ w', (drawMenu registry (BitVec.ofNat 64 sel') >>= fun _ =>
        pure (.inl (BitVec.ofNat 64 sel')) : Prog UefiWorld (NxUintn ⊕ NxIntn))
          { w with keys := keys } = (some (.inl (BitVec.ofNat 64 sel')), w') ∧
      w'.keys = keys ∧ After registry sel w [key] w' := by
  have hlt : sel' < registry.pages.length := hmoved ▸ menuMoved_lt hsel key
  refine ⟨_, Prog.bind_of_some (drawMenu_apply hlt _), rfl, .single hsel (.inl (hmoved ▸ hne))
    (List.prefix_append _ _) ?_⟩
  rw [hmoved]
  exact List.suffix_append _ _

/-- **A key** moves the selection and is shown, or is passed over, or it returns an
    index. -/
theorem pageMenuServe_spec (hsel : sel < registry.pages.length)
    (hmarked : menuScreen registry sel <:+ w.console) (hkeys : w.keys = key :: keys) :
    (∃ w', pageMenuServe registry (BitVec.ofNat 64 sel) w =
        (some (.inl (BitVec.ofNat 64 (menuMoved registry.pages.length sel key))), w') ∧
      w'.keys = keys ∧ After registry sel w [key] w') ∨
    ∃ i, pageMenuServe registry (BitVec.ofNat 64 sel) w =
        (some (.inr i), { w with keys := keys }) ∧
      MenuAnswer registry.pages.length sel key i := by
  have hread : tuiReadKey w = (some key, { w with keys := keys }) := by
    rw [tuiReadKey, hkeys]
  have hpos : BitVec.ofNat 64 sel > 0 ↔ 0 < sel := by
    rw [gt_iff_lt, BitVec.lt_def, index_toNat hsel]
    rfl
  rw [pageMenuServe, Prog.bind_of_some hread]
  simp only [hpos, lt_last_iff hsel]
  by_cases hup : key.scanCode = scanUp ∧ 0 < sel
  · have hmoved : menuMoved registry.pages.length sel key = sel - 1 := if_pos hup.1
    rw [if_pos hup, index_pred hup.2, hmoved]
    exact Or.inl (redrawn hsel hmoved (by omega))
  by_cases hdown : key.scanCode = scanDown ∧ sel + 1 < registry.pages.length
  · have hmoved : menuMoved registry.pages.length sel key = sel + 1 := by
      rw [menuMoved, hdown.1, if_neg (by decide), if_pos rfl]
      omega
    rw [if_neg hup, if_pos hdown, index_succ, hmoved]
    exact Or.inl (redrawn hsel hmoved (by omega))
  have hstays : menuMoved registry.pages.length sel key = sel := by
    rw [menuMoved]
    split_ifs with h₁ h₂
    · have : ¬ 0 < sel := fun h => hup ⟨h₁, h⟩
      omega
    · have : ¬ sel + 1 < registry.pages.length := fun h => hdown ⟨h₂, h⟩
      omega
    · rfl
  rw [if_neg hup, if_neg hdown]
  split_ifs with hdigit henter hesc
  · obtain ⟨d, hd, hlt, hc⟩ := (digitTest_iff registry _).1 hdigit
    rw [hc, (digit_value hd).2]
    exact Or.inr ⟨_, rfl, .digit d hd hlt hc⟩
  · exact Or.inr ⟨_, rfl, .enter henter⟩
  · exact Or.inr ⟨_, rfl, .esc hesc⟩
  · rw [hstays]
    refine Or.inl ⟨_, rfl, rfl, .single hsel (.inr fun i hi => ?_) List.prefix_rfl
      (hstays.symm ▸ hmarked)⟩
    cases hi with
    | digit d hd hlt hc => exact hdigit ((digitTest_iff registry _).2 ⟨d, hd, hlt, hc⟩)
    | enter h => exact henter h
    | esc h => exact hesc h

/-! ## The menu -/

/-- The outcome of a menu that starts at the selection `sel`: a key after the keys
    `before` returns the index, or all keys have passed. -/
def MenuOutcome (registry : PageRegistry W) (sel : ℕ) (w : UefiWorld)
    (r : Option NxIntn × UefiWorld) : Prop :=
  (∃ before key i w', r = (some i, { w' with keys := r.2.keys }) ∧
    w.keys = before ++ key :: r.2.keys ∧ After registry sel w before w' ∧
    MenuAnswer registry.pages.length (before.foldl (menuMoved registry.pages.length) sel) key i) ∨
  r.1 = none ∧ r.2.keys = [] ∧ After registry sel w w.keys r.2

theorem menuLoop_spec : ∀ (keys : List EfiInputKey) (sel : ℕ) (w : UefiWorld),
    w.keys = keys → sel < registry.pages.length → menuScreen registry sel <:+ w.console →
    MenuOutcome registry sel w
      (Prog.loop pure (pageMenuServe registry) keys.length (BitVec.ofNat 64 sel) w)
  | [], sel, w, hkeys, hsel, hmarked => by
    refine Or.inr ⟨rfl, hkeys, ?_⟩
    rw [hkeys]
    exact .refl hsel hmarked
  | key :: keys, sel, w, hkeys, hsel, hmarked => by
    rw [List.length_cons, Prog.loop, Prog.bind_of_some (Prog.pure_apply _ w)]
    rcases pageMenuServe_spec hsel hmarked hkeys with ⟨w₁, hserve, hkeys₁, h₁⟩ | ⟨i, hserve, hi⟩
    · -- the menu goes on with the other keys
      rw [Prog.bind_of_some hserve]
      have hlt := menuMoved_lt hsel key
      rcases menuLoop_spec keys _ w₁ hkeys₁ hlt h₁.marked with
        ⟨before, k, i, w', hr, hk, h', hi⟩ | ⟨hr, hk, h'⟩
      · refine Or.inl ⟨key :: before, k, i, w', hr, ?_, h₁.trans h', hi⟩
        rw [hkeys, List.cons_append, ← hk, hkeys₁]
      · rw [hkeys₁] at h'
        refine Or.inr ⟨hr, hk, ?_⟩
        rw [hkeys]
        exact h₁.trans h'
    · rw [Prog.bind_of_some hserve]
      exact Or.inl ⟨[], key, i, w, rfl, hkeys, .refl hsel hmarked, hi⟩

theorem pageMenu_outcome (registry : PageRegistry W) (hpages : registry.pages ≠ [])
    (w : UefiWorld) :
    MenuOutcome registry 0 { w with console := w.console ++ menuScreen registry 0 }
      (pageMenu (some registry) w) := by
  have hpos : 0 < registry.pages.length := List.length_pos_iff.2 hpages
  have hcount : registry.pageCount ≠ 0 := by
    intro h
    have := pageCount_toNat registry
    rw [h] at this
    exact hpos.ne this
  have hdraw := drawMenu_apply hpos w
  rw [pageMenu, if_neg hcount, show (0 : NxUintn) = BitVec.ofNat 64 0 from rfl,
    Prog.bind_of_some hdraw, Prog.bind_of_some (Prog.get_apply _)]
  exact menuLoop_spec w.keys 0 _ rfl hpos (List.suffix_append _ _)

/-- An index is a page's, or it is `-1`. -/
theorem MenuAnswer.index {count : ℕ} {i : NxIntn} (h : MenuAnswer count sel key i)
    (hsel : sel < count) (hfits : count < 2 ^ 60) :
    i = -1 ∨ i.toNat < count ∧ i.slt 0 = false := by
  have hindex : ∀ d, d < count → (BitVec.ofNat 64 d).toNat < count ∧
      (BitVec.ofNat 64 d).slt 0 = false := by
    intro d hd
    have hvalue : (BitVec.ofNat 64 d).toNat = d := by
      rw [BitVec.toNat_ofNat, Nat.mod_eq_of_lt (by omega)]
    refine ⟨hvalue.symm ▸ hd, ?_⟩
    show (BitVec.ofNat 64 d).slt 0#64 = false
    rw [BitVec.slt_zero_eq_msb, BitVec.msb_eq_false_iff_two_mul_lt, hvalue]
    omega
  cases h with
  | digit d _ hd => exact Or.inr (hindex d hd)
  | enter => exact Or.inr (hindex sel hsel)
  | esc => exact Or.inl rfl

/-- **What Enter opens is what the screen marks.**  Of any keystrokes, the menu takes
    those that move the selection inside the registry or mean nothing, and then one
    that returns an index: the number of a page that has been typed, the page that
    the last screen marks, or `-1` for ESC; or it waits with no keystroke left.
    Nothing but the console and the keystrokes changes, and an index that is not
    `-1` is a page's. -/
theorem menu_opens_marked (registry : PageRegistry W) (hpages : registry.pages ≠ [])
    (w : UefiWorld) :
    MenuOutcome registry 0 { w with console := w.console ++ menuScreen registry 0 }
      (pageMenu (some registry) w) ∧
    ∀ i w', pageMenu (some registry) w = (some i, w') →
      i = -1 ∨ i.toNat < registry.pages.length ∧ i.slt 0 = false := by
  have h := pageMenu_outcome registry hpages w
  refine ⟨h, fun i w' hrun => ?_⟩
  rw [hrun] at h
  rcases h with ⟨before, key, j, w₁, hr, -, hafter, hj⟩ | ⟨hr, -⟩
  · obtain rfl : i = j := Option.some.inj (congrArg Prod.fst hr)
    exact hj.index hafter.lt registry.fits
  · cases hr

/-- Two pages. -/
def twoPages : PageRegistry Unit where
  pages := [⟨wide "Memory", none⟩, ⟨wide "Ports", none⟩]
  fits := Nat.lt_of_lt_of_le (Nat.lt_succ_self 2) (Nat.le_of_ble_eq_true rfl)

theorem menu_opens_marked_second :
    (pageMenu (some twoPages)
      (.boot (fun _ => 0) [⟨scanDown, 0⟩, ⟨scanDown, 0⟩, ⟨0, charCarriageReturn⟩])).1 = some 1 ∧
    MenuOutcome twoPages 0
      { UefiWorld.boot (fun _ => 0) [⟨scanDown, 0⟩, ⟨scanDown, 0⟩, ⟨0, charCarriageReturn⟩] with
        console := menuScreen twoPages 0 }
      (pageMenu (some twoPages)
        (.boot (fun _ => 0) [⟨scanDown, 0⟩, ⟨scanDown, 0⟩, ⟨0, charCarriageReturn⟩])) :=
  ⟨by decide, (menu_opens_marked twoPages (by decide) _).1⟩

end UefiNexus
