/-
  Adapters with a text terminal.

  `T : Terminal W M` says where a platform keeps its screen, what its memory
  reads as, what a text appears as and how large the screen says it is;
  `T.Drives a` is what the operations of the adapters `a` that the view calls do
  with it.  The other operations may do anything to the screen and to the memory.

  `T.Draws e attr attr' ss m r`: the program `m` paints the strokes `ss` and
  returns `r`, when the memory is `e` and the attribute in use `attr`; it leaves
  the memory alone and the attribute `attr'`.  This is closed under composition
  (`Draws.pure`, `Draws.bind`, `Draws.each`).

  `deskAdapters` is a small platform of this kind, for runs on given inputs.
-/
import UefiNexus.Adapter.Interface
import UefiNexus.Lib.ByteMem
import UefiNexus.Lib.Grid

namespace UefiNexus

/-- A character that takes one cell of the screen. -/
def Printable {v : ℕ} (c : BitVec v) : Prop := 32 ≤ c.toNat ∧ c.toNat ≤ 126

/-- A character that is not special in a format either: not `%`. -/
def Plain {v : ℕ} (c : BitVec v) : Prop := Printable c ∧ c.toNat ≠ '%'.toNat

instance {v : ℕ} (c : BitVec v) : Decidable (Printable c) := inferInstanceAs (Decidable (_ ∧ _))

instance {v : ℕ} (c : BitVec v) : Decidable (Plain c) := inferInstanceAs (Decidable (_ ∧ _))

abbrev Screen := Grid NxUiChar NxUintn

/-- Where a platform keeps its screen and, in `M`, what the view reads. -/
structure Terminal (W M : Type) where
  screen : W → Screen
  env : W → M
  /-- What a text appears as: the text itself, unless it has a `%`. -/
  render : List NxUiChar → List NxUiChar
  render_plain : ∀ string, (∀ c ∈ string, Plain c) → render string = string
  /-- The outcome of a read. -/
  read : M → NxU64 → NxUintn → NxStatus × NxU64
  /-- The outcome of `getScreenDimensions`. -/
  dimensions : M → NxStatus × NxUintn × NxUintn

namespace Terminal

variable {W M α β : Type}

/-- From `w`, the program returns `r`, changes the screen by `f` and leaves the
    memory alone. -/
def Effect (T : Terminal W M) (w : W) (m : Prog W α) (r : α) (f : Screen → Screen) : Prop :=
  ∃ w', m w = (some r, w') ∧ T.screen w' = f (T.screen w) ∧ T.env w' = T.env w

/-- The operations of the view act on the terminal: reads are repeatable, a text
    without control characters is put where the position is, and nothing happens
    to the screen or to the memory while a key is awaited. -/
structure Drives (T : Terminal W M) (a : AdapterManager W) : Prop where
  clearScreen : ∀ w, T.Effect w a.tui.clearScreen () Grid.clear
  setAttribute : ∀ attr w, T.Effect w (a.tui.setAttribute attr) () (Grid.setAttr attr)
  setCursorPosition : ∀ column row w,
    T.Effect w (a.tui.setCursorPosition column row) () (Grid.moveTo column.toNat row.toNat)
  outputString : ∀ string, (∀ c ∈ string, Printable c) →
    ∀ w, T.Effect w (a.tui.outputString string) () (Grid.put (T.render string))
  outputStringAt : ∀ column row string, (∀ c ∈ string, Printable c) →
    ∀ w, T.Effect w (a.tui.outputStringAt column row string) ()
      fun g => (g.moveTo column.toNat row.toNat).put (T.render string)
  getScreenDimensions : ∀ w, T.Effect w a.tui.getScreenDimensions (T.dimensions (T.env w)) id
  memRead : ∀ address width w,
    T.Effect w (a.memory.memRead address width) (T.read (T.env w) address width) id
  readKey : ∀ w key w', a.tui.readKey w = (some key, w') →
    T.screen w' = T.screen w ∧ T.env w' = T.env w

/-- The program paints the strokes `ss` and returns `r`. -/
def Draws (T : Terminal W M) (e : M) (attr attr' : NxUintn) (ss : List (Stroke NxUiChar NxUintn))
    (m : Prog W α) (r : α) : Prop :=
  ∀ w, T.env w = e → (T.screen w).attr = attr →
    ∃ w', m w = (some r, w') ∧ T.env w' = e ∧ (T.screen w').attr = attr' ∧
      (T.screen w').cells = Grid.paintAll (T.screen w).cells ss

section
variable {T : Terminal W M} {a : AdapterManager W} {e : M} {attr attr' attr'' : NxUintn}
  {ss ts : List (Stroke NxUiChar NxUintn)}

/-! ## Composition -/

theorem Draws.pure (r : α) : T.Draws e attr attr [] (pure r) r :=
  fun w he hattr => ⟨w, rfl, he, hattr, rfl⟩

theorem Draws.bind {m : Prog W α} {f : α → Prog W β} {r : α} {r' : β}
    (hm : T.Draws e attr attr' ss m r) (hf : T.Draws e attr' attr'' ts (f r) r') :
    T.Draws e attr attr'' (ss ++ ts) (m >>= f) r' := by
  intro w he hattr
  obtain ⟨w₁, hm, he₁, hattr₁, hcells₁⟩ := hm w he hattr
  obtain ⟨w₂, hf, he₂, hattr₂, hcells₂⟩ := hf w₁ he₁ hattr₁
  refine ⟨w₂, ?_, he₂, hattr₂, ?_⟩
  · rw [Prog.bind_of_some hm]; exact hf
  · rw [hcells₂, hcells₁, Grid.paintAll_append]

theorem Draws.each {ι : Type} {f : ι → Prog W Unit} {g : ι → List (Stroke NxUiChar NxUintn)}
    {is : List ι} (h : ∀ i ∈ is, T.Draws e attr attr (g i) (f i) ()) :
    T.Draws e attr attr (is.flatMap g) (Prog.each f is) () := by
  induction is with
  | nil => exact Draws.pure ()
  | cons i is ih =>
    exact (h i (List.mem_cons_self ..)).bind (ih fun j hj => h j (List.mem_cons_of_mem _ hj))

/-- An operation that leaves the screen alone. -/
theorem Draws.of_effect {m : Prog W α} {r : α} (h : ∀ w, T.env w = e → T.Effect w m r id) :
    T.Draws e attr attr [] m r := by
  intro w he hattr
  obtain ⟨w', hm, hscreen, henv⟩ := h w he
  exact ⟨w', hm, henv.trans he, by rw [hscreen]; exact hattr, by rw [hscreen]; rfl⟩

/-! ## The operations -/

/-- The stroke of `OutputStringAt`. -/
def stroke (T : Terminal W M) (column row : NxUintn) (string : List NxUiChar) (attr : NxUintn) :
    Stroke NxUiChar NxUintn :=
  ⟨row.toNat, column.toNat, T.render string, attr⟩

theorem Drives.draws_setAttribute (h : T.Drives a) (attr' : NxUintn) :
    T.Draws e attr attr' [] (a.tui.setAttribute attr') () := by
  intro w he _
  obtain ⟨w', hm, hscreen, henv⟩ := h.setAttribute attr' w
  exact ⟨w', hm, henv.trans he, by rw [hscreen]; rfl, by rw [hscreen]; rfl⟩

/-- A text that is put at a place. -/
theorem Draws.of_put {m : Prog W α} {r : α} {column row : NxUintn} {string : List NxUiChar}
    (h : ∀ w, T.Effect w m r fun g => (g.moveTo column.toNat row.toNat).put (T.render string)) :
    T.Draws e attr attr [T.stroke column row string attr] m r := by
  intro w he hattr
  obtain ⟨w', hm, hscreen, henv⟩ := h w
  refine ⟨w', hm, henv.trans he, ?_, ?_⟩
  · rw [hscreen]; exact hattr
  · rw [hscreen, ← hattr]; rfl

theorem Drives.draws_outputStringAt (h : T.Drives a) (column row : NxUintn)
    {string : List NxUiChar} (hstring : ∀ c ∈ string, Printable c) :
    T.Draws e attr attr [T.stroke column row string attr]
      (a.tui.outputStringAt column row string) () :=
  Draws.of_put (h.outputStringAt column row string hstring)

theorem Drives.draws_getScreenDimensions (h : T.Drives a) :
    T.Draws e attr attr [] a.tui.getScreenDimensions (T.dimensions e) := by
  refine Draws.of_effect fun w he => ?_
  rw [← he]
  exact h.getScreenDimensions w

theorem Drives.draws_memRead (h : T.Drives a) (address : NxU64) (width : NxUintn) :
    T.Draws e attr attr [] (a.memory.memRead address width) (T.read e address width) := by
  refine Draws.of_effect fun w he => ?_
  rw [← he]
  exact h.memRead address width w

/-- Plain texts that are put one after the other are one text. -/
theorem Drives.outputString_each {ι : Type} (h : T.Drives a) {f : ι → List NxUiChar}
    (hf : ∀ i, ∀ c ∈ f i, Plain c) :
    ∀ is w, T.Effect w (Prog.each (fun i => a.tui.outputString (f i)) is) ()
      (Grid.put (is.flatMap f))
  | [], w => ⟨w, rfl, by rw [List.flatMap_nil, Grid.put_nil], rfl⟩
  | i :: is, w => by
    obtain ⟨w₁, h₁, hscreen₁, henv₁⟩ := h.outputString (f i) (fun c hc => (hf i c hc).1) w
    obtain ⟨w₂, h₂, hscreen₂, henv₂⟩ := outputString_each h hf is w₁
    refine ⟨w₂, ?_, ?_, henv₂.trans henv₁⟩
    · rw [Prog.each, Prog.bind_of_some h₁]; exact h₂
    · rw [hscreen₂, hscreen₁, T.render_plain (f i) (hf i), List.flatMap_cons, Grid.put_append]

end
end Terminal

/-! ## A platform with a terminal -/

/-- A platform: a screen, a memory, and the keys and the answers to the prompts
    that are still to come. -/
structure Desk where
  screen : Screen
  memory : NxU64 → NxU8
  keys : List NxUiKey
  answers : List NxU64

/-- The adapters of the platform with a memory map.  All memory can be read and
    written; a prompt without an answer is left with ESC. -/
def deskAdapters (descriptors : List NxMemoryDescriptor) : AdapterManager Desk where
  memory :=
    { init := pure .success
      memRead := fun address width => do
        let d ← Prog.get
        return (.success, BitVec.ofNat 64 (ByteMem.load d.memory address width.toNat))
      memWrite := fun address width value => do
        Prog.modify fun d =>
          { d with memory := ByteMem.store d.memory address width.toNat value.toNat }
        return .success
      getMemoryMapDescriptors := pure (some descriptors)
      getMemoryTypeAtAddress := some fun _ _ => pure (.success, 7, true)
      queryAccess := none
      dumpValidRanges := pure () }
  tui :=
    { clearScreen := Prog.modify fun d => { d with screen := d.screen.clear }
      setAttribute := fun attr => Prog.modify fun d => { d with screen := d.screen.setAttr attr }
      setCursorPosition := fun column row => Prog.modify fun d =>
        { d with screen := d.screen.moveTo column.toNat row.toNat }
      outputString := fun string => Prog.modify fun d => { d with screen := d.screen.put string }
      outputStringAt := fun column row string => Prog.modify fun d =>
        { d with screen := (d.screen.moveTo column.toNat row.toNat).put string }
      readKey := fun d =>
        match d.keys with
        | [] => (none, d)
        | key :: keys => (some key, { d with keys := keys })
      readHex := fun _ d =>
        match d.answers with
        | [] => (some (false, 0), d)
        | value :: answers => (some (true, value), { d with answers := answers })
      getScreenDimensions := pure (.success, 80, 25) }
  error := { reportError := fun _ _ => pure () }

/-- Texts that appear as they are. -/
theorem id_plain : ∀ string : List NxUiChar, (∀ c ∈ string, Plain c) → id string = string :=
  fun _ _ => rfl

/-- The screen and the memory of the platform. -/
def deskTerminal : Terminal Desk (NxU64 → NxU8) where
  screen := Desk.screen
  env := Desk.memory
  render := id
  render_plain := id_plain
  read memory address width :=
    (.success, BitVec.ofNat 64 (ByteMem.load memory address width.toNat))
  dimensions _ := (.success, 80, 25)

theorem desk_drives (descriptors : List NxMemoryDescriptor) :
    deskTerminal.Drives (deskAdapters descriptors) where
  clearScreen _ := ⟨_, rfl, rfl, rfl⟩
  setAttribute _ _ := ⟨_, rfl, rfl, rfl⟩
  setCursorPosition _ _ _ := ⟨_, rfl, rfl, rfl⟩
  outputString _ _ _ := ⟨_, rfl, rfl, rfl⟩
  outputStringAt _ _ _ _ _ := ⟨_, rfl, rfl, rfl⟩
  getScreenDimensions _ := ⟨_, rfl, rfl, rfl⟩
  memRead _ _ _ := ⟨_, rfl, rfl, rfl⟩
  readKey d key d' h := by
    obtain ⟨screen, memory, keys, answers⟩ := d
    cases keys with
    | nil => cases h
    | cons k keys => cases h; exact ⟨rfl, rfl⟩

/-- One page of conventional memory at `0x1000`. -/
def deskMap : List NxMemoryDescriptor := [⟨.conventional, 0x1000, 1, 0, 7⟩]

/-- The platform before a run: each byte of its memory is the low byte of its
    address. -/
def desk (keys : List NxUiKey) (answers : List NxU64) : Desk where
  screen := ⟨Grid.blank, 0x0F, 0, 0⟩
  memory address := address.setWidth 8
  keys := keys
  answers := answers

/-- A page state before `PageMemControllerInit`. -/
def deskState : PageMemPageState where
  currentState := .goto
  cursorState := ⟨0, 0, 0⟩
  addressMap := ⟨none⟩
  pageUefiMemoryType := 0
  pageHasMemoryDescriptor := false
  pageAccess := ⟨0, 0, false, false, false, false⟩
  needsRedraw := false

/-- The key of a character. -/
def charKey (c : Char) : NxUiKey := ⟨0, L c⟩

end UefiNexus
