/-
  The viewer: what PageMem is for.

  A viewer is on a block of 256 bytes, and selects a cell of 1, 2, 4 or 8 bytes of
  it.  Keys move the selection and the block, and change the width of the cells;
  a number typed at a prompt is the address to go to, or is written to the cell.

  The viewer is not translated from the source: addresses are natural numbers, the
  blocks are a set of them, and page down goes to the least block above the page.
  Drawing, reports, and the metadata of a page are no part of it.
-/
import UefiNexus.Proof.Codec
import Mathlib.Order.Lattice.Nat
import Mathlib.Order.Bounds.Basic

namespace UefiNexus

open Classical

/-! ## Neighbours -/

/-- The least element above `p`. -/
noncomputable def above (blocks : Set ℕ) (p : ℕ) : Option ℕ :=
  if ∃ q, q ∈ blocks ∧ p < q then some (sInf {q | q ∈ blocks ∧ p < q}) else none

/-- The greatest element below `p`. -/
noncomputable def below (blocks : Set ℕ) (p : ℕ) : Option ℕ :=
  if ∃ q, q ∈ blocks ∧ q < p then some (sSup {q | q ∈ blocks ∧ q < p}) else none

section
variable {blocks : Set ℕ} {p q : ℕ}

theorem above_eq_some : above blocks p = some q ↔ IsLeast {q | q ∈ blocks ∧ p < q} q := by
  unfold above
  constructor
  · intro h
    split_ifs at h with hex
    obtain rfl := Option.some.inj h
    exact ⟨Nat.sInf_mem hex, fun _ hr => Nat.sInf_le hr⟩
  · intro h
    rw [if_pos ⟨q, h.1⟩, h.csInf_eq]

theorem above_eq_none : above blocks p = none ↔ ∀ q ∈ blocks, ¬ p < q := by
  unfold above
  split_ifs with h
  · obtain ⟨r, hr, hlt⟩ := h
    simp only [false_iff, not_forall]
    exact ⟨r, hr, fun hn => hn hlt⟩
  · simpa using h

theorem below_eq_some : below blocks p = some q ↔ IsGreatest {q | q ∈ blocks ∧ q < p} q := by
  have hbound : BddAbove {q | q ∈ blocks ∧ q < p} := ⟨p, fun r hr => hr.2.le⟩
  unfold below
  constructor
  · intro h
    split_ifs at h with hex
    obtain rfl := Option.some.inj h
    exact ⟨Nat.sSup_mem hex hbound, fun _ hr => le_csSup hbound hr⟩
  · intro h
    rw [if_pos ⟨q, h.1⟩, h.csSup_eq]

theorem below_eq_none : below blocks p = none ↔ ∀ q ∈ blocks, ¬ q < p := by
  unfold below
  split_ifs with h
  · obtain ⟨r, hr, hlt⟩ := h
    simp only [false_iff, not_forall]
    exact ⟨r, hr, fun hn => hn hlt⟩
  · simpa using h

end

/-! ## The viewer -/

/-- What the viewer is used on. -/
structure Viewed where
  /-- The addresses of the blocks. -/
  blocks : Set ℕ
  /-- The memory map holds the bytes from an address on. -/
  mapped : ℕ → ℕ → Prop
  /-- They may be written. -/
  writable : ℕ → ℕ → Prop
  /-- The number of full screens of the list of memory ranges. -/
  fullScreens : ℕ

/-- The state of the viewer, when it awaits a key. -/
@[ext] structure Viewer where
  block : ℕ
  offset : ℕ
  width : ℕ
  memory : PhysMem
  /-- The keys to come. -/
  keys : List EfiInputKey

namespace Viewer

/-- The bytes an arrow key moves by. -/
def arrow (width : ℕ) (key : EfiInputKey) : Option ℤ :=
  if key.scanCode = 0x0001 then some (-16)
  else if key.scanCode = 0x0002 then some 16
  else if key.scanCode = 0x0004 then some (-width)
  else if key.scanCode = 0x0003 then some width
  else none

/-- The cell at an offset, or the first or the last cell of the block. -/
def select (width : ℕ) (offset : ℤ) : ℕ :=
  (max 0 (min offset (256 - width))).toNat / width * width

/-- A number typed in at most `maxDigits` digits, `none` if the prompt is left, and
    the keys after it; no answer without ESC or Enter. -/
def prompt (maxDigits : ℕ) : List NxUiChar → List EfiInputKey → Option (Option ℕ × List EfiInputKey)
  | _, [] => none
  | line, key :: keys =>
    if key.scanCode = scanEsc then some (none, keys)
    else if key.unicodeChar = charCarriageReturn then some (some (hexValue line), keys)
    else prompt maxDigits (typeKey maxDigits line key) keys

/-- The keys after a list with so many full screens: any key but ESC turns to the
    next screen, any key closes the last one. -/
def afterList : ℕ → List EfiInputKey → Option (List EfiInputKey)
  | _, [] => none
  | 0, _ :: keys => some keys
  | n + 1, key :: keys => if key.scanCode = scanEsc then some keys else afterList n keys

/-- To the first byte of another block, if there is one. -/
def turn (v : Viewer) : Option ℕ → Viewer
  | none => v
  | some block => { v with block := block, offset := 0 }

/-- To an address. -/
def goTo (v : Viewer) : Option ℕ → Viewer
  | none => v
  | some address => { v with block := address / 256 * 256, offset := address % 256 }

/-- A number into the cell. -/
noncomputable def write (m : Viewed) (v : Viewer) : Option ℕ → Viewer
  | none => v
  | some value =>
    if m.writable (v.block + v.offset) v.width then
      { v with
        memory := ByteMem.store v.memory (BitVec.ofNat 64 (v.block + v.offset)) v.width value }
    else v

theorem write_of_writable {m : Viewed} {v : Viewer} (h : m.writable (v.block + v.offset) v.width)
    (value : ℕ) : write m v (some value) =
      { v with
        memory := ByteMem.store v.memory (BitVec.ofNat 64 (v.block + v.offset)) v.width value } :=
  if_pos h

theorem write_of_not_writable {m : Viewed} {v : Viewer}
    (h : ¬ m.writable (v.block + v.offset) v.width) (value : ℕ) : write m v (some value) = v :=
  if_neg h

/-- The keys to come play no part in it. -/
theorem write_withKeys (m : Viewed) (v : Viewer) (keys : List EfiInputKey) (value : Option ℕ) :
    write m { v with keys := keys } value = { write m v value with keys := keys } := by
  rcases value with _ | value
  · rfl
  by_cases h : m.writable (v.block + v.offset) v.width
  · rw [write_of_writable h, write_of_writable (v := { v with keys := keys }) h]
  · rw [write_of_not_writable h, write_of_not_writable (v := { v with keys := keys }) h]

/-- An edit of the cell; without a whole cell that is mapped, there is no prompt. -/
noncomputable def edit (m : Viewed) (v : Viewer) : Option Viewer :=
  if v.width ∣ v.offset ∧ m.mapped (v.block + v.offset) v.width then
    (prompt (2 * v.width) [] v.keys).map fun r => { write m v r.1 with keys := r.2 }
  else some v

/-- A command. -/
noncomputable def obey (m : Viewed) (v : Viewer) : Option Command → Option Viewer
  | some .edit => edit m v
  | some .goto => (prompt 16 [] v.keys).map fun r => { v.goTo r.1 with keys := r.2 }
  | some .pageDown => some (v.turn (above m.blocks v.block))
  | some .pageUp => some (v.turn (below m.blocks v.block))
  | some .ranges => (afterList m.fullScreens v.keys).map fun keys => { v with keys := keys }
  | some (.width width) =>
    some { v with width := width.toNat, offset := v.offset / width.toNat * width.toNat }
  | none => some v

/-- A key; the viewer stops at ESC, and where the keys run out. -/
noncomputable def step (m : Viewed) (v : Viewer) : Option Viewer :=
  match v.keys with
  | [] => none
  | key :: keys =>
    if key.scanCode = scanEsc then none
    else
      match arrow v.width key with
      | some bytes => some { v with offset := select v.width (v.offset + bytes), keys := keys }
      | none => obey m { v with keys := keys } (command key.unicodeChar)

section
variable {m : Viewed} {v : Viewer} {key : EfiInputKey} {keys : List EfiInputKey}

theorem step_arrow {bytes : ℤ} (hkeys : v.keys = key :: keys) (hesc : key.scanCode ≠ scanEsc)
    (harrow : arrow v.width key = some bytes) :
    step m v = some { v with offset := select v.width (v.offset + bytes), keys := keys } := by
  unfold step
  rw [hkeys]
  dsimp only
  rw [if_neg hesc, harrow]

theorem step_command (hkeys : v.keys = key :: keys) (hesc : key.scanCode ≠ scanEsc)
    (harrow : arrow v.width key = none) :
    step m v = obey m { v with keys := keys } (command key.unicodeChar) := by
  unfold step
  rw [hkeys]
  dsimp only
  rw [if_neg hesc, harrow]

end

end Viewer

end UefiNexus
