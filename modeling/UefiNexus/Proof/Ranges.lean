/-
  The list of memory ranges (`DumpMemoryRanges`).

  The list is a pager of the descriptors it lists, 16 lines to a screen
  (`dumpRangesFrom_eq`).  `Output bs w ops keys w'`: `w'` is `w` after the requests
  `ops` to the console, with the keystrokes `keys` left and the memory map and
  physical memory untouched.  What a call does is then a matter of the screens and
  the keystrokes (`memory_ranges_shown`).
-/
import UefiNexus.Lib.Pager
import UefiNexus.Proof.AccessParts
import UefiNexus.Proof.Machine
import UefiNexus.Proof.TypeNames
import Mathlib.Tactic.Tauto

namespace UefiNexus

/-! ## The lines -/

/-- The list has a line for the descriptor. -/
def isListed (showAllTypes : Bool) (desc : EfiMemoryDescriptor) : Bool :=
  desc.numberOfPages ≠ 0 && (showAllTypes || isMemoryTypeBrowsable desc.type)

/-- The descriptors the list has a line for. -/
def listedDescriptors (showAllTypes : Bool) (lib : MemLib) : List EfiMemoryDescriptor :=
  lib.descriptors.filter (isListed showAllTypes)

/-- The access of the line of a descriptor. -/
def listedAccess (bs : BootServices) (lib : MemLib) (desc : EfiMemoryDescriptor) : NxMemoryAccess :=
  if desc.numberOfPages > 0 ∧ desc.numberOfPages ≤ maxUint64 >>> 12 then
    toMemoryAccess
      (queryMemoryAccess bs lib desc.physicalStart (desc.numberOfPages <<< 12)).2.1
  else ⟨efiNoMapping, 0, false, false, false, false⟩

/-- The text of an access in the list. -/
def accessText (access : NxMemoryAccess) : List NxChar :=
  cstr (uefiMemoryAccessFormat access (List.replicate 16 (BitVec.allOnes 8)) 16)

/-- The name of a type in the list. -/
def listedTypeName (type : NxU32) : List NxChar :=
  cstr (uefiMemoryTypeFormat type (List.replicate 32 (BitVec.allOnes 8)) 32)

/-- The line of a descriptor. -/
def rangeLine (bs : BootServices) (lib : MemLib) (desc : EfiMemoryDescriptor) : ConsoleOp :=
  .print (wide "%-28a %-6a %016llX %llu\n")
    [.asciiString (listedTypeName desc.type), .asciiString (accessText (listedAccess bs lib desc)),
      .number desc.physicalStart, .number desc.numberOfPages]

/-- The lines of the list. -/
def rangeLines (bs : BootServices) (showAllTypes : Bool) (lib : MemLib) : List ConsoleOp :=
  (listedDescriptors showAllTypes lib).map (rangeLine bs lib)

/-! ## The screens -/

/-- The number of lines on a screen. -/
def linesPerScreen : ℕ := 16

/-- The title and the heading. -/
def headingOps : List ConsoleOp :=
  [.print (wide "Memory ranges\n\n") [],
    .print (wide "%-28ls %-6ls %ls %ls\n")
      [.string (wide "Type"), .string (wide "Access"), .string (wide "Start"),
        .string (wide "Pages")]]

/-- The screen number `j` of the list. -/
def rangeScreen (lines : List ConsoleOp) (j : ℕ) : List ConsoleOp :=
  .clearScreen :: headingOps ++ Pager.screen linesPerScreen lines j

/-- The question under a full screen. -/
def continueOp : ConsoleOp := .print (wide "\nPress ESC to quit or other keys to continue...") []

/-- The first `j` screens, each with the question. -/
def askedScreens (lines : List ConsoleOp) (j : ℕ) : List ConsoleOp :=
  (List.range j).flatMap fun i => rangeScreen lines i ++ [continueOp]

/-- What is asked between two screens, and the heading of the second one. -/
def nextScreenOps : List ConsoleOp := continueOp :: .clearScreen :: headingOps

/-- The first `j` screens after the first heading, up to the next heading. -/
def turnedScreens (lines : List ConsoleOp) (j : ℕ) : List ConsoleOp :=
  (List.range j).flatMap fun i => Pager.screen linesPerScreen lines i ++ nextScreenOps

/-- The end of the list, under its last screen. -/
def listEnd (lines : List ConsoleOp) : List ConsoleOp :=
  (if lines = [] then [.print (wide "(none)\n") []] else []) ++
    [.print (wide "\nPress any key to return...") []]

/-- What the list has put on the console when it waits for its key number `n`. -/
def listSoFar (lines : List ConsoleOp) (n : ℕ) : List ConsoleOp :=
  if n < lines.length / linesPerScreen then askedScreens lines (n + 1)
  else askedScreens lines n ++ rangeScreen lines n ++ listEnd lines

theorem append_flatMap {α β : Type} (xs : List β) (f : α → List β) : ∀ is : List α,
    xs ++ is.flatMap (fun i => f i ++ xs) = is.flatMap (fun i => xs ++ f i) ++ xs
  | [] => List.append_nil xs
  | i :: is => by
    rw [List.flatMap_cons, List.flatMap_cons, List.append_assoc (xs ++ f i), ← append_flatMap xs f is]
    simp only [List.append_assoc]

theorem turnedScreens_succ (lines : List ConsoleOp) (j : ℕ) :
    turnedScreens lines (j + 1) = Pager.screen linesPerScreen lines 0 ++ nextScreenOps ++
      turnedScreens (lines.drop linesPerScreen) j := by
  rw [turnedScreens, List.range_succ_eq_map, List.flatMap_cons, List.flatMap_map, turnedScreens]
  simp only [Pager.screen_succ]

/-- The heading and the screens after it. -/
theorem heading_turnedScreens (lines : List ConsoleOp) (j : ℕ) :
    .clearScreen :: headingOps ++ turnedScreens lines j =
      askedScreens lines j ++ .clearScreen :: headingOps := by
  have h := append_flatMap (.clearScreen :: headingOps)
    (fun i => Pager.screen linesPerScreen lines i ++ [continueOp]) (List.range j)
  simp only [List.append_assoc, List.singleton_append] at h
  rw [turnedScreens, askedScreens]
  simp only [rangeScreen, nextScreenOps, List.append_assoc]
  exact h

/-! ## Output -/

/-- `w'` is `w` after the requests `ops`, with the keystrokes `keys` left. -/
structure Output (bs : BootServices) (w : UefiWorld) (ops : List ConsoleOp)
    (keys : List EfiInputKey) (w' : UefiWorld) : Prop extends Untouched bs w w' where
  console : w'.console = w.console ++ ops
  keys : w'.keys = keys

section
variable {bs : BootServices} {fw : Firmware} {w w₁ w₂ : UefiWorld} {ops ops' : List ConsoleOp}
  {keys keys' : List EfiInputKey}

theorem Output.refl (w : UefiWorld) : Output bs w [] w.keys w :=
  ⟨refl_of (Untouched bs) w, (List.append_nil _).symm, rfl⟩

theorem Output.trans (h : Output bs w ops keys w₁) (h' : Output bs w₁ ops' keys' w₂) :
    Output bs w (ops ++ ops') keys' w₂ where
  toUntouched := trans_of (Untouched bs) h.toUntouched h'.toUntouched
  console := by rw [h'.console, h.console, List.append_assoc]
  keys := h'.keys

/-- A request to the console. -/
theorem Output.request (bs : BootServices) (op : ConsoleOp) (w : UefiWorld) :
    ∃ w', consoleRequest op w = (some (), w') ∧ Output bs w [op] w.keys w' :=
  ⟨_, rfl, ⟨⟨⟨.refl _, rfl⟩, rfl⟩, rfl, rfl⟩⟩

/-- A keystroke. -/
theorem Output.key (bs : BootServices) {key : EfiInputKey} (h : w.keys = key :: keys) :
    ∃ w', tuiReadKey w = (some key, w') ∧ Output bs w [] keys w' := by
  refine ⟨{ w with keys := keys }, ?_, ⟨⟨⟨.refl _, rfl⟩, rfl⟩, ?_, rfl⟩⟩
  · rw [tuiReadKey, h]
  · exact (List.append_nil _).symm

/-- The answer of a query depends on the map alone. -/
theorem SameMap.query {lib lib' : MemLib} (h : SameMap bs lib lib') (a n : NxU64) :
    (queryMemoryAccess bs lib' a n).2.1 = (queryMemoryAccess bs lib a n).2.1 := by
  have hprotocol : (locateMemoryAttributeProtocol bs lib').gMemoryAttributeProtocol =
      (locateMemoryAttributeProtocol bs lib).gMemoryAttributeProtocol := h.protocol
  have hfind : ∀ l l' : MemLib, SameMap bs l l' →
      isToolRangeReadable l' a n = isToolRangeReadable l a n ∧
        isToolRangeWritable l' a n = isToolRangeWritable l a n := by
    intro l l' hl
    simp only [isToolRangeReadable, isToolRangeWritable, hl.findDescriptorForRange, and_self]
  obtain ⟨hread, hwrite⟩ := hfind _ _ (locate_sameMap bs lib)
  obtain ⟨hread', hwrite'⟩ := hfind _ _ (h.trans (locate_sameMap bs lib'))
  simp only [queryMemoryAccess, ite_located, h.findDescriptorForRange, hprotocol, hread, hwrite,
    hread', hwrite']
  by_cases hguard : n = 0 ∨ a > maxUint64 - n
  · simp only [if_pos hguard]
  simp only [if_neg hguard]
  cases UefiNexus.findDescriptorForRange lib a n with
  | none => rfl
  | some desc =>
    dsimp only
    cases (locateMemoryAttributeProtocol bs lib).gMemoryAttributeProtocol with
    | none => rfl
    | some getMemoryAttributes =>
      dsimp only
      split_ifs <;> rfl

theorem SameMap.rangeLine {lib lib' : MemLib} (h : SameMap bs lib lib')
    (desc : EfiMemoryDescriptor) : rangeLine bs lib' desc = rangeLine bs lib desc := by
  simp only [UefiNexus.rangeLine, listedAccess, h.query]

/-- The line of a descriptor, shown. -/
theorem dumpLine_output (fw : Firmware) (desc : EfiMemoryDescriptor) (w : UefiWorld) :
    ∃ w', dumpLine fw desc w = (some (), w') ∧
      Output fw.bootServices w [rangeLine fw.bootServices w.memLib desc] w.keys w' := by
  have haccess : ∃ w', rangeAccess fw desc w =
      (some (listedAccess fw.bootServices w.memLib desc), w') ∧
        Output fw.bootServices w [] w.keys w' := by
    rw [rangeAccess, listedAccess]
    split_ifs
    · exact ⟨_, rfl, ⟨.of_lib (query_sameMap _ w.memLib _ _), (List.append_nil _).symm, rfl⟩⟩
    · exact ⟨w, rfl, .refl w⟩
  obtain ⟨w₁, hquery, h₁⟩ := haccess
  obtain ⟨w₂, hprint, h₂⟩ := Output.request fw.bootServices
    (rangeLine fw.bootServices w.memLib desc) w₁
  have h := h₁.trans h₂
  rw [h₁.keys] at h
  refine ⟨w₂, ?_, h⟩
  rw [dumpLine, Prog.bind_of_some hquery]
  exact hprint

/-- Lines, shown. -/
theorem dumpLines_output (fw : Firmware) : ∀ (descs : List EfiMemoryDescriptor) (w : UefiWorld),
    ∃ w', Prog.each (dumpLine fw) descs w = (some (), w') ∧
      Output fw.bootServices w (descs.map (rangeLine fw.bootServices w.memLib)) w.keys w'
  | [], w => ⟨w, rfl, .refl w⟩
  | desc :: descs, w => by
    obtain ⟨w₁, hline, h₁⟩ := dumpLine_output fw desc w
    obtain ⟨w₂, hlines, h₂⟩ := dumpLines_output fw descs w₁
    have hsame : descs.map (rangeLine fw.bootServices w₁.memLib) =
        descs.map (rangeLine fw.bootServices w.memLib) :=
      List.map_congr_left fun desc _ => h₁.lib.rangeLine desc
    have h := h₁.trans h₂
    rw [h₁.keys, hsame] at h
    exact ⟨w₂, by rw [Prog.each, Prog.bind_of_some hline, hlines], h⟩

/-! ## The list is a pager -/

/-- The question under a full screen, and the heading of the next screen if the user
    wants more. -/
def askForMore : Prog UefiWorld Bool := do
  consoleRequest continueOp
  let key ← tuiReadKey
  if key.scanCode = scanEsc then return false
  else
    tuiClearScreen
    dumpHeading
    return true

/-- What the loop does after a full screen, before it goes on with `rest`. -/
theorem askForMore_bind (rest : Prog UefiWorld (Option ℕ)) :
    (askForMore >>= fun goOn => if goOn then rest else pure none) = (do
      print (wide "\nPress ESC to quit or other keys to continue...") []
      let key ← tuiReadKey
      if key.scanCode = scanEsc then return none
      else
        tuiClearScreen
        dumpHeading
        rest) := by
  rw [askForMore]
  simp only [Prog.seq_assoc]
  refine congrArg _ (funext fun _ => congrArg _ (funext fun key => ?_))
  split_ifs
  · rfl
  · simp only [Prog.seq_assoc]
    rfl

/-- **The loop is a pager** of the descriptors that are listed. -/
theorem dumpRangesFrom_eq (fw : Firmware) (showAllTypes : Bool) :
    ∀ (descs : List EfiMemoryDescriptor) (printed : ℕ),
      dumpRangesFrom fw showAllTypes descs printed =
        Pager.run linesPerScreen (dumpLine fw) askForMore
          (descs.filter (isListed showAllTypes)) printed
  | [], _ => rfl
  | desc :: descs, printed => by
    have hlisted : (desc.numberOfPages = 0 ∨ (¬ showAllTypes ∧ ¬ isMemoryTypeBrowsable desc.type)) ↔
        ¬ isListed showAllTypes desc = true := by
      simp only [isListed, Bool.and_eq_true, Bool.or_eq_true, decide_eq_true_eq]
      tauto
    rw [dumpRangesFrom]
    by_cases h : isListed showAllTypes desc = true
    · rw [if_neg (fun hskip => hlisted.1 hskip h), List.filter_cons_of_pos h, Pager.run,
        askForMore_bind]
      simp only [dumpRangesFrom_eq fw showAllTypes descs]
      rfl
    · rw [if_pos (hlisted.2 h), List.filter_cons_of_neg h]
      exact dumpRangesFrom_eq fw showAllTypes descs printed

/-- ESC at the question. -/
theorem askForMore_esc (bs : BootServices) {key : EfiInputKey} (hkeys : w.keys = key :: keys)
    (hesc : key.scanCode = scanEsc) :
    ∃ w', askForMore w = (some false, w') ∧ Output bs w [continueOp] keys w' := by
  obtain ⟨w₁, hask, h₁⟩ := Output.request bs continueOp w
  obtain ⟨w₂, hkey, h₂⟩ := Output.key bs (h₁.keys.trans hkeys)
  refine ⟨w₂, ?_, h₁.trans h₂⟩
  rw [askForMore, Prog.bind_of_some hask, Prog.bind_of_some hkey, if_pos hesc]
  rfl

/-- Any other key. -/
theorem askForMore_more (bs : BootServices) {key : EfiInputKey} (hkeys : w.keys = key :: keys)
    (hesc : key.scanCode ≠ scanEsc) :
    ∃ w', askForMore w = (some true, w') ∧ Output bs w nextScreenOps keys w' := by
  obtain ⟨w₁, hask, h₁⟩ := Output.request bs continueOp w
  obtain ⟨w₂, hkey, h₂⟩ := Output.key bs (h₁.keys.trans hkeys)
  refine ⟨{ w₂ with console := w₂.console ++ .clearScreen :: headingOps }, ?_, ?_⟩
  · rw [askForMore, Prog.bind_of_some hask, Prog.bind_of_some hkey, if_neg hesc]
    simp only [tuiClearScreen, dumpHeading, print, consoleRequest, Prog.modify, bind, pure,
      headingOps, List.append_assoc, List.cons_append, List.nil_append]
  · exact (h₁.trans h₂).trans ⟨⟨⟨.refl _, rfl⟩, rfl⟩, rfl, h₂.keys⟩

/-- No key. -/
theorem askForMore_none (bs : BootServices) (hkeys : w.keys = []) :
    ∃ w', askForMore w = (none, w') ∧ Output bs w [continueOp] [] w' := by
  obtain ⟨w₁, hask, h₁⟩ := Output.request bs continueOp w
  have hnone : tuiReadKey w₁ = (none, w₁) := by
    rw [tuiReadKey, h₁.keys, hkeys]
  refine ⟨w₁, ?_, hkeys ▸ h₁⟩
  rw [askForMore, Prog.bind_of_some hask, Prog.bind_of_none hnone]

/-- **The screens before the one on which the user has not answered yet.** -/
theorem run_answered (fw : Firmware) : ∀ (answers : List EfiInputKey)
    (items : List EfiMemoryDescriptor) (printed : ℕ) (w : UefiWorld),
    (∀ key ∈ answers, key.scanCode ≠ scanEsc) →
    w.keys = answers ++ keys → linesPerScreen * answers.length ≤ items.length →
    printed % linesPerScreen = 0 →
    ∃ w', Pager.run linesPerScreen (dumpLine fw) askForMore items printed w =
        Pager.run linesPerScreen (dumpLine fw) askForMore
          (items.drop (linesPerScreen * answers.length))
          (printed + linesPerScreen * answers.length) w' ∧
      Output fw.bootServices w
        (turnedScreens (items.map (rangeLine fw.bootServices w.memLib)) answers.length) keys w'
  | [], items, printed, w, _, hkeys, _, _ => by
    obtain rfl : w.keys = keys := hkeys
    exact ⟨w, rfl, .refl w⟩
  | key :: answers, items, printed, w, hanswers, hkeys, hroom, hmod => by
    rw [List.length_cons, Nat.mul_succ] at hroom
    obtain ⟨w₁, hlines, h₁⟩ := dumpLines_output fw (items.take linesPerScreen) w
    obtain ⟨w₂, hask, h₂⟩ := askForMore_more fw.bootServices (h₁.keys.trans hkeys)
      (hanswers key List.mem_cons_self)
    obtain ⟨w₃, hrest, h₃⟩ := run_answered fw answers (items.drop linesPerScreen)
      (printed + linesPerScreen) w₂ (fun k hk => hanswers k (List.mem_cons_of_mem _ hk)) h₂.keys
      (by rw [List.length_drop]; omega) (by rw [Nat.add_mod_right, hmod])
    refine ⟨w₃, ?_, ?_⟩
    · rw [Pager.run_screen hmod (by decide) (by omega), Prog.bind_of_some hlines,
        Prog.bind_of_some hask, if_pos rfl, hrest, List.drop_drop, List.length_cons, Nat.mul_succ,
        Nat.add_comm linesPerScreen, Nat.add_assoc, Nat.add_comm linesPerScreen]
    · have hsame : (items.drop linesPerScreen).map (rangeLine fw.bootServices w₂.memLib) =
          (items.map (rangeLine fw.bootServices w.memLib)).drop linesPerScreen := by
        rw [← List.map_drop]
        exact List.map_congr_left fun desc _ => (h₁.lib.trans h₂.lib).rangeLine desc
      rw [hsame] at h₃
      rw [List.length_cons, turnedScreens_succ, Pager.screen_map]
      exact (h₁.trans h₂).trans h₃

/-! ## The whole list -/

/-- The answers to at most `q` questions: the keys before the first ESC. -/
def answersGiven (q : ℕ) (keys : List EfiInputKey) : List EfiInputKey :=
  (keys.take q).takeWhile fun key => key.scanCode ≠ scanEsc

theorem answersGiven_ne_esc {q : ℕ} {key : EfiInputKey} (h : key ∈ answersGiven q keys) :
    key.scanCode ≠ scanEsc := by
  simpa using List.all_eq_true.1 List.all_takeWhile key h

/-- The keys are the answers and an ESC, the answers alone, or answers to all
    questions. -/
theorem answersGiven_cases (q : ℕ) (keys : List EfiInputKey) :
    ((answersGiven q keys).length < q ∧ ∃ key rest, keys = answersGiven q keys ++ key :: rest ∧
      key.scanCode = scanEsc) ∨
    ((answersGiven q keys).length < q ∧ keys = answersGiven q keys) ∨
    ((answersGiven q keys).length = q ∧ ∃ rest, keys = answersGiven q keys ++ rest) := by
  have hsplit : keys.take q = answersGiven q keys ++
      (keys.take q).dropWhile fun key => key.scanCode ≠ scanEsc :=
    (List.takeWhile_append_dropWhile).symm
  have hlength := congrArg List.length hsplit
  rw [List.length_append, List.length_take] at hlength
  have hkeys : keys = keys.take q ++ keys.drop q := (List.take_append_drop q keys).symm
  rcases hdrop : (keys.take q).dropWhile fun key => key.scanCode ≠ scanEsc with _ | ⟨key, rest⟩
  · rw [hdrop, List.append_nil] at hsplit
    rw [hdrop, List.length_nil, Nat.add_zero] at hlength
    by_cases hq : q ≤ keys.length
    · refine Or.inr (Or.inr ⟨by omega, keys.drop q, ?_⟩)
      rw [← hsplit]
      exact hkeys
    · rw [List.take_of_length_le (by omega)] at hsplit
      exact Or.inr (Or.inl ⟨by omega, hsplit⟩)
  · rw [hdrop, List.length_cons] at hlength
    refine Or.inl ⟨by omega, key, rest ++ keys.drop q, ?_, ?_⟩
    · rw [← List.cons_append, ← List.append_assoc, ← hdrop, ← hsplit]
      exact hkeys
    · have hstop := List.head?_dropWhile_not (fun key : EfiInputKey => key.scanCode ≠ scanEsc)
        (keys.take q)
      rw [hdrop] at hstop
      simpa using hstop

/-- The end of `DumpMemoryRanges`. -/
def closeList : Option ℕ → Prog UefiWorld Unit
  | none => pure ()
  | some printed => do
    if printed = 0 then print (wide "(none)\n") []
    print (wide "\nPress any key to return...") []
    tuiWaitForKeyPress

theorem closeList_output (fw : Firmware) (w : UefiWorld) (lines : List ConsoleOp) :
    ∃ w', closeList (some lines.length) w = (if 0 < w.keys.length then some () else none, w') ∧
      Output fw.bootServices w (listEnd lines) (w.keys.drop 1) w' := by
  have hwait : ∀ v : UefiWorld, ∃ w', (do
        print (wide "\nPress any key to return...") []
        tuiWaitForKeyPress) v = (if 0 < v.keys.length then some () else none, w') ∧
      Output fw.bootServices v [.print (wide "\nPress any key to return...") []]
        (v.keys.drop 1) w' := by
    intro v
    obtain ⟨v₁, hprint, h₁⟩ := Output.request fw.bootServices
      (.print (wide "\nPress any key to return...") []) v
    rw [print, Prog.bind_of_some hprint]
    rcases hkeys : v.keys with _ | ⟨key, keys⟩
    · have hnone : tuiReadKey v₁ = (none, v₁) := by
        rw [tuiReadKey, h₁.keys, hkeys]
      rw [hkeys] at h₁
      refine ⟨v₁, ?_, h₁⟩
      rw [tuiWaitForKeyPress, Prog.bind_of_none hnone]
      rfl
    · obtain ⟨v₂, hkey, h₂⟩ := Output.key fw.bootServices (h₁.keys.trans hkeys)
      refine ⟨v₂, ?_, h₁.trans h₂⟩
      rw [tuiWaitForKeyPress, Prog.bind_of_some hkey]
      rfl
  rw [closeList]
  by_cases hnil : lines = []
  · obtain ⟨v₁, hprint, h₁⟩ := Output.request fw.bootServices
      (.print (wide "(none)\n") []) w
    obtain ⟨w', hend, h₂⟩ := hwait v₁
    rw [h₁.keys] at hend h₂
    refine ⟨w', ?_, ?_⟩
    · rw [if_pos (by rw [hnil]; rfl), print, Prog.bind_of_some hprint]
      exact hend
    · rw [listEnd, if_pos hnil]
      exact h₁.trans h₂
  · obtain ⟨w', hend, h₂⟩ := hwait w
    refine ⟨w', ?_, ?_⟩
    · rw [if_neg fun h => hnil (List.length_eq_zero_iff.1 h)]
      exact hend
    · rw [listEnd, if_neg hnil]
      exact h₂

/-- The machine with the title and the heading on the console. -/
def withHeading (w : UefiWorld) : UefiWorld :=
  { w with console := w.console ++ .clearScreen :: headingOps }

theorem withHeading_output (w : UefiWorld) :
    Output bs w (.clearScreen :: headingOps) w.keys (withHeading w) :=
  ⟨⟨⟨.refl _, rfl⟩, rfl⟩, rfl, rfl⟩

theorem dumpMemoryRanges_eq (fw : Firmware) (showAllTypes : Bool)
    (hmap : ¬ (w.memLib.gMemMap.isNone ∨ w.memLib.gDescSize = 0)) :
    dumpMemoryRanges fw showAllTypes w =
      (Pager.run linesPerScreen (dumpLine fw) askForMore
        (listedDescriptors showAllTypes w.memLib) 0 >>= closeList) (withHeading w) := by
  have hheading : (tuiClearScreen >>= fun _ => dumpHeading) w = (some (), withHeading w) := by
    simp only [tuiClearScreen, dumpHeading, print, consoleRequest, Prog.modify, bind, withHeading,
      headingOps, List.append_assoc, List.cons_append, List.nil_append]
  rw [dumpMemoryRanges, Prog.bind_of_some (Prog.get_apply w), if_neg hmap, ← Prog.seq_assoc,
    Prog.bind_of_some hheading, dumpRangesFrom_eq, listedDescriptors]
  refine congrFun (congrArg _ (funext fun r => ?_)) _
  cases r with
  | none => rfl
  | some printed => rfl

/-- The list after the answers to the first questions. -/
theorem list_answered (fw : Firmware) (showAllTypes : Bool)
    (hmap : ¬ (w.memLib.gMemMap.isNone ∨ w.memLib.gDescSize = 0)) {answers : List EfiInputKey}
    (hanswers : ∀ key ∈ answers, key.scanCode ≠ scanEsc) (hkeys : w.keys = answers ++ keys)
    (hroom : answers.length ≤
      (rangeLines fw.bootServices showAllTypes w.memLib).length / linesPerScreen) :
    ∃ w', dumpMemoryRanges fw showAllTypes w =
        (Pager.run linesPerScreen (dumpLine fw) askForMore
          ((listedDescriptors showAllTypes w.memLib).drop (linesPerScreen * answers.length))
          (linesPerScreen * answers.length) >>= closeList) w' ∧
      Output fw.bootServices w
        (askedScreens (rangeLines fw.bootServices showAllTypes w.memLib) answers.length ++
          .clearScreen :: headingOps) keys w' := by
  have hle : linesPerScreen * answers.length ≤
      (listedDescriptors showAllTypes w.memLib).length := by
    rw [rangeLines, List.length_map] at hroom
    exact (Nat.mul_le_mul_left _ hroom).trans (Nat.mul_div_le _ _)
  obtain ⟨w', hrun, h⟩ := run_answered fw answers
    (listedDescriptors showAllTypes w.memLib) 0 (withHeading w) hanswers hkeys hle rfl
  refine ⟨w', ?_, ?_⟩
  · rw [dumpMemoryRanges_eq fw showAllTypes hmap]
    simp only [bind, hrun, Nat.zero_add]
  · have hshown := (withHeading_output w).trans h
    rw [← heading_turnedScreens]
    exact hshown

/-- The lines of the screen number `j`, put under the heading. -/
theorem screen_output (fw : Firmware) (showAllTypes : Bool) {w' : UefiWorld} (j : ℕ)
    (h : Output fw.bootServices w ops keys w') :
    ∃ w'', Prog.each (dumpLine fw)
        (Pager.screen linesPerScreen (listedDescriptors showAllTypes w.memLib) j) w' =
          (some (), w'') ∧
      Output fw.bootServices w
        (ops ++ Pager.screen linesPerScreen
          (rangeLines fw.bootServices showAllTypes w.memLib) j) keys w'' := by
  obtain ⟨w'', hlines, h'⟩ := dumpLines_output fw
    (Pager.screen linesPerScreen (listedDescriptors showAllTypes w.memLib) j) w'
  refine ⟨w'', hlines, ?_⟩
  have hsame : ∀ descs : List EfiMemoryDescriptor,
      descs.map (rangeLine fw.bootServices w'.memLib) =
        descs.map (rangeLine fw.bootServices w.memLib) :=
    fun descs => List.map_congr_left fun desc _ => h.lib.rangeLine desc
  rw [hsame, ← Pager.screen_map, h.keys] at h'
  exact h.trans h'

theorem askedScreens_succ (lines : List ConsoleOp) (j : ℕ) :
    askedScreens lines (j + 1) = askedScreens lines j ++ .clearScreen :: headingOps ++
      Pager.screen linesPerScreen lines j ++ [continueOp] := by
  rw [askedScreens, List.range_succ, List.flatMap_append, List.flatMap_singleton, askedScreens,
    rangeScreen]
  simp only [List.append_assoc, List.cons_append]

section
variable {showAllTypes : Bool} {answers : List EfiInputKey}

/-- The next screen is full: the question is asked under it, and `false` ends the
    list. -/
theorem list_asks (hmap : ¬ (w.memLib.gMemMap.isNone ∨ w.memLib.gDescSize = 0))
    (hanswers : ∀ key ∈ answers, key.scanCode ≠ scanEsc) (hkeys : w.keys = answers ++ keys)
    (hlt : answers.length <
      (rangeLines fw.bootServices showAllTypes w.memLib).length / linesPerScreen) :
    ∃ (more : Bool → Prog UefiWorld (Option ℕ)) (w' : UefiWorld), more false = pure none ∧
      dumpMemoryRanges fw showAllTypes w =
        (askForMore >>= fun goOn => more goOn >>= closeList) w' ∧
      Output fw.bootServices w
        (askedScreens (rangeLines fw.bootServices showAllTypes w.memLib) answers.length ++
          rangeScreen (rangeLines fw.bootServices showAllTypes w.memLib) answers.length)
        keys w' := by
  obtain ⟨w₁, hrun, h₁⟩ := list_answered fw showAllTypes hmap hanswers hkeys hlt.le
  obtain ⟨w₂, hscreen, h₂⟩ := screen_output fw showAllTypes answers.length h₁
  have hroom : linesPerScreen ≤ ((listedDescriptors showAllTypes w.memLib).drop
      (linesPerScreen * answers.length)).length := by
    have hle := (Nat.mul_le_mul_left linesPerScreen (Nat.succ_le_of_lt hlt)).trans
      (Nat.mul_div_le _ _)
    rw [rangeLines, List.length_map, Nat.mul_succ] at hle
    rw [List.length_drop]
    omega
  refine ⟨fun goOn => if goOn then Pager.run linesPerScreen (dumpLine fw) askForMore
      (((listedDescriptors showAllTypes w.memLib).drop
        (linesPerScreen * answers.length)).drop linesPerScreen)
      (linesPerScreen * answers.length + linesPerScreen) else pure none, w₂, rfl, ?_, ?_⟩
  · rw [Pager.screen] at hscreen
    rw [hrun, Pager.run_screen (Nat.mul_mod_right _ _) (by decide) hroom, Prog.seq_assoc,
      Prog.bind_of_some hscreen, Prog.seq_assoc]
  · rw [rangeScreen, ← List.append_assoc]
    exact h₂

/-- The next screen is the last one. -/
theorem list_ends (hmap : ¬ (w.memLib.gMemMap.isNone ∨ w.memLib.gDescSize = 0))
    (hanswers : ∀ key ∈ answers, key.scanCode ≠ scanEsc) (hkeys : w.keys = answers ++ keys)
    (heq : answers.length =
      (rangeLines fw.bootServices showAllTypes w.memLib).length / linesPerScreen) :
    ∃ w', dumpMemoryRanges fw showAllTypes w =
        closeList (some (rangeLines fw.bootServices showAllTypes w.memLib).length) w' ∧
      Output fw.bootServices w
        (askedScreens (rangeLines fw.bootServices showAllTypes w.memLib) answers.length ++
          rangeScreen (rangeLines fw.bootServices showAllTypes w.memLib) answers.length)
        keys w' := by
  obtain ⟨w₁, hrun, h₁⟩ := list_answered fw showAllTypes hmap hanswers hkeys heq.le
  obtain ⟨w₂, hscreen, h₂⟩ := screen_output fw showAllTypes answers.length h₁
  have hcount := Nat.div_add_mod (listedDescriptors showAllTypes w.memLib).length linesPerScreen
  have hmod := Nat.mod_lt (listedDescriptors showAllTypes w.memLib).length
    (show linesPerScreen > 0 by decide)
  rw [rangeLines, List.length_map] at heq
  rw [← heq] at hcount
  have hrest : ((listedDescriptors showAllTypes w.memLib).drop
      (linesPerScreen * answers.length)).length < linesPerScreen := by
    rw [List.length_drop]
    omega
  refine ⟨w₂, ?_, ?_⟩
  · rw [Pager.screen, List.take_of_length_le hrest.le] at hscreen
    rw [hrun, Pager.run_rest (Nat.mul_mod_right _ _) hrest, Prog.seq_assoc,
      Prog.bind_of_some hscreen, List.length_drop, rangeLines, List.length_map]
    show closeList (some _) w₂ = _
    congr 2
    omega
  · rw [rangeScreen, ← List.append_assoc]
    exact h₂

end

/-- The keys that answer the questions of a call. -/
def rangeAnswers (fw : Firmware) (showAllTypes : Bool) (w : UefiWorld) : List EfiInputKey :=
  answersGiven ((rangeLines fw.bootServices showAllTypes w.memLib).length / linesPerScreen) w.keys

/-- A call shows the screens that have been asked for, and takes the keys that
    answer. -/
theorem dumpMemoryRanges_output (fw : Firmware) (showAllTypes : Bool) (w : UefiWorld)
    (hmap : ¬ (w.memLib.gMemMap.isNone ∨ w.memLib.gDescSize = 0)) :
    ∃ w', dumpMemoryRanges fw showAllTypes w =
        (if (rangeAnswers fw showAllTypes w).length < w.keys.length then some () else none, w') ∧
      Output fw.bootServices w
        (listSoFar (rangeLines fw.bootServices showAllTypes w.memLib)
          (rangeAnswers fw showAllTypes w).length)
        (w.keys.drop ((rangeAnswers fw showAllTypes w).length + 1)) w' := by
  have hesc : ∀ key ∈ rangeAnswers fw showAllTypes w, key.scanCode ≠ scanEsc :=
    fun _ => answersGiven_ne_esc
  have hcases := answersGiven_cases
    ((rangeLines fw.bootServices showAllTypes w.memLib).length / linesPerScreen) w.keys
  rw [← rangeAnswers] at hcases
  have hlength : ∀ rest, w.keys = rangeAnswers fw showAllTypes w ++ rest →
      w.keys.length = (rangeAnswers fw showAllTypes w).length + rest.length ∧
        w.keys.drop ((rangeAnswers fw showAllTypes w).length + 1) = rest.drop 1 := by
    intro rest hkeys
    generalize rangeAnswers fw showAllTypes w = answers at hkeys ⊢
    rw [hkeys, List.length_append, ← List.drop_drop, List.drop_left]
    exact ⟨rfl, rfl⟩
  rcases hcases with ⟨hlt, key, rest, hkeys, hkey⟩ | ⟨hlt, hkeys⟩ | ⟨heq, rest, hkeys⟩
  · -- ESC under the screen
    obtain ⟨hlen, hdrop⟩ := hlength _ hkeys
    obtain ⟨more, w₁, hmore, hrun, h₁⟩ := list_asks hmap hesc hkeys hlt
    obtain ⟨w₂, hask, h₂⟩ := askForMore_esc fw.bootServices h₁.keys hkey
    refine ⟨w₂, ?_, ?_⟩
    · rw [hrun, Prog.bind_of_some hask, hmore, if_pos (by rw [hlen, List.length_cons]; omega)]
      rfl
    · rw [hdrop, listSoFar, if_pos hlt, askedScreens_succ]
      have h := h₁.trans h₂
      rw [rangeScreen, ← List.append_assoc] at h
      exact h
  · -- the question waits
    have hkeys' : w.keys = rangeAnswers fw showAllTypes w ++ [] := by
      rw [List.append_nil]
      exact hkeys
    obtain ⟨hlen, hdrop⟩ := hlength _ hkeys'
    obtain ⟨more, w₁, hmore, hrun, h₁⟩ := list_asks hmap hesc hkeys' hlt
    obtain ⟨w₂, hask, h₂⟩ := askForMore_none fw.bootServices h₁.keys
    refine ⟨w₂, ?_, ?_⟩
    · rw [hrun, Prog.bind_of_none hask, if_neg (by rw [hlen, List.length_nil]; omega)]
    · rw [hdrop, listSoFar, if_pos hlt, askedScreens_succ]
      have h := h₁.trans h₂
      rw [rangeScreen, ← List.append_assoc] at h
      exact h
  · -- the last screen
    obtain ⟨hlen, hdrop⟩ := hlength _ hkeys
    obtain ⟨w₁, hrun, h₁⟩ := list_ends hmap hesc hkeys heq
    obtain ⟨w₂, hclose, h₂⟩ := closeList_output fw w₁
      (rangeLines fw.bootServices showAllTypes w.memLib)
    rw [h₁.keys] at hclose h₂
    refine ⟨w₂, ?_, ?_⟩
    · rw [hrun, hclose, hlen]
      simp only [Nat.lt_add_right_iff_pos]
    · rw [hdrop, listSoFar, if_neg (by omega)]
      exact h₁.trans h₂

/-- **The list of memory ranges.**  With a cached map, a call shows the lines of the
    listed descriptors, in order and 16 to a screen; it asks after each full
    screen, ends at the first ESC there or at the key after the last screen, and
    waits for the key otherwise.  The memory map and physical memory are
    untouched. -/
theorem memory_ranges_shown (fw : Firmware) (showAllTypes : Bool) (w : UefiWorld)
    (hmap : ¬ (w.memLib.gMemMap.isNone ∨ w.memLib.gDescSize = 0)) :
    (∃ w', dumpMemoryRanges fw showAllTypes w =
        (if (rangeAnswers fw showAllTypes w).length < w.keys.length then some () else none, w') ∧
      Output fw.bootServices w
        (listSoFar (rangeLines fw.bootServices showAllTypes w.memLib)
          (rangeAnswers fw showAllTypes w).length)
        (w.keys.drop ((rangeAnswers fw showAllTypes w).length + 1)) w') ∧
    (List.range ((rangeLines fw.bootServices showAllTypes w.memLib).length / linesPerScreen + 1)
      ).flatMap (Pager.screen linesPerScreen (rangeLines fw.bootServices showAllTypes w.memLib)) =
        rangeLines fw.bootServices showAllTypes w.memLib ∧
    ∀ j, (Pager.screen linesPerScreen
      (rangeLines fw.bootServices showAllTypes w.memLib) j).length ≤ 16 :=
  ⟨dumpMemoryRanges_output fw showAllTypes w hmap, Pager.flatMap_screen (by decide) _,
    Pager.length_screen_le linesPerScreen _⟩

/-- A firmware with one page of memory. -/
def oneRangeFirmware : Firmware :=
  .ofMap (.ofDescriptors [⟨7, 0x1000, 1, 0⟩] FirmwareMap.onePage_fits) none fun _ => 0

/-- A map of seventeen pages that are listed, and a descriptor without pages. -/
def pagesLib : MemLib :=
  .ofDescriptors
    (⟨7, 0, 0, 0⟩ :: (List.range 17).map fun i => ⟨7, BitVec.ofNat 64 ((i + 1) * 0x2000), 1, 0⟩) none

/-- The machine with that map and some keystrokes. -/
def pagesWorld (keys : List EfiInputKey) : UefiWorld :=
  { UefiWorld.boot (fun _ => 0) keys with memLib := pagesLib }

/-- The lines of that map. -/
def pagesLines : List ConsoleOp := rangeLines oneRangeFirmware.bootServices true pagesLib

theorem pagesLines_length : pagesLines.length = 17 := by
  rw [pagesLines, rangeLines, List.length_map]
  decide +kernel

/-- The list of seventeen lines, with another key and with ESC under its first screen. -/
theorem memory_ranges_shown_two :
    (∃ w', dumpMemoryRanges oneRangeFirmware true (pagesWorld [⟨0, L 'x'⟩, ⟨0, L 'y'⟩, ⟨0, L 'z'⟩]) =
        (some (), w') ∧ w'.keys = [⟨0, L 'z'⟩] ∧
      w'.console = rangeScreen pagesLines 0 ++ [continueOp] ++ rangeScreen pagesLines 1 ++
        [.print (wide "\nPress any key to return...") []]) ∧
    ∃ w', dumpMemoryRanges oneRangeFirmware true (pagesWorld [⟨scanEsc, 0⟩, ⟨0, L 'y'⟩]) =
        (some (), w') ∧ w'.keys = [⟨0, L 'y'⟩] ∧
      w'.console = rangeScreen pagesLines 0 ++ [continueOp] := by
  have hscreens : pagesLines.length / linesPerScreen = 1 := by
    rw [pagesLines_length]
    rfl
  have hne : pagesLines ≠ [] := by
    intro h
    have hlength := pagesLines_length
    rw [h] at hlength
    cases hlength
  have hasked : askedScreens pagesLines 1 = rangeScreen pagesLines 0 ++ [continueOp] :=
    List.append_nil _
  have hanswers : ∀ keys, rangeAnswers oneRangeFirmware true (pagesWorld keys) =
      answersGiven 1 keys := by
    intro keys
    rw [← hscreens]
    rfl
  constructor
  · obtain ⟨⟨w', hrun, hout⟩, -⟩ := memory_ranges_shown oneRangeFirmware true
      (pagesWorld [⟨0, L 'x'⟩, ⟨0, L 'y'⟩, ⟨0, L 'z'⟩]) (by decide)
    rw [hanswers] at hrun hout
    refine ⟨w', hrun, hout.keys, ?_⟩
    have hend : listSoFar pagesLines 1 = askedScreens pagesLines 1 ++ rangeScreen pagesLines 1 ++
        listEnd pagesLines := if_neg (by rw [hscreens]; decide)
    have hconsole : w'.console = listSoFar pagesLines 1 := hout.console
    rw [hconsole, hend, hasked, listEnd, if_neg hne, List.nil_append]
  · obtain ⟨⟨w', hrun, hout⟩, -⟩ := memory_ranges_shown oneRangeFirmware true
      (pagesWorld [⟨scanEsc, 0⟩, ⟨0, L 'y'⟩]) (by decide)
    rw [hanswers] at hrun hout
    refine ⟨w', hrun, hout.keys, ?_⟩
    have hend : listSoFar pagesLines 0 = askedScreens pagesLines 1 :=
      if_pos (by rw [hscreens]; decide)
    have hconsole : w'.console = listSoFar pagesLines 0 := hout.console
    rw [hconsole, hend, hasked]

/-! ## What the lines say -/

/-- What an access shows of itself: whether it is known, and then what it allows. -/
def shownAccess (access : NxMemoryAccess) : Option (NxBool × NxBool) :=
  if access.accessKnown then some (access.readAllowed, access.writeAllowed) else none

theorem accessText_eq (access : NxMemoryAccess) : accessText access = accessName access := by
  have hstring := @accessFormat_string access (List.replicate 16 (BitVec.allOnes 8)) 16
    (by decide) (by simp)
  rw [accessText, hstring]
  exact List.take_of_length_le (accessName_spec access).2

/-- The text of what an access shows. -/
def accessWord : Option (NxBool × NxBool) → List NxChar
  | none => ascii "Unknown"
  | some (true, true) => ascii "R/W"
  | some (true, false) => ascii "R/-"
  | some (false, true) => ascii "-/W"
  | some (false, false) => ascii "--"

theorem accessName_eq (access : NxMemoryAccess) :
    accessName access = accessWord (shownAccess access) := by
  obtain ⟨_, _, read, write, _, known⟩ := access
  cases known <;> cases read <;> cases write <;> rfl

/-- **The text of an access identifies what it shows.** -/
theorem accessWord_injective : Function.Injective accessWord := by
  rintro (_ | ⟨_ | _, _ | _⟩) (_ | ⟨_ | _, _ | _⟩) h
  all_goals first
    | rfl
    | exact absurd h (by decide)

theorem accessText_eq_iff {access access' : NxMemoryAccess} :
    accessText access = accessText access' ↔ shownAccess access = shownAccess access' := by
  rw [accessText_eq, accessText_eq, accessName_eq, accessName_eq, accessWord_injective.eq_iff]

theorem listedTypeName_eq (type : NxU32) : listedTypeName type = fullTypeName type := by
  have hstring := @typeFormat_string (List.replicate 32 (BitVec.allOnes 8)) 32 (by decide)
    (by simp) type
  rw [listedTypeName, hstring, typeName_eq]
  exact List.take_of_length_le ((length_fullTypeName_le type).trans (by decide))

/-- What the line of a descriptor is about. -/
def lineContent (bs : BootServices) (lib : MemLib) (desc : EfiMemoryDescriptor) :
    NxU32 × Option (NxBool × NxBool) × NxU64 × NxU64 :=
  (desc.type, shownAccess (listedAccess bs lib desc), desc.physicalStart, desc.numberOfPages)

theorem rangeLine_eq_iff {bs bs' : BootServices} {lib lib' : MemLib}
    {desc desc' : EfiMemoryDescriptor} :
    rangeLine bs lib desc = rangeLine bs' lib' desc' ↔
      lineContent bs lib desc = lineContent bs' lib' desc' := by
  simp only [rangeLine, lineContent, ConsoleOp.print.injEq, List.cons.injEq, and_true, true_and,
    PrintArg.asciiString.injEq, PrintArg.number.injEq, Prod.mk.injEq, accessText_eq_iff,
    listedTypeName_eq, fullTypeName_injective.eq_iff]

/-- **The list is lossless.**  Two lists, of any two maps, have the same lines exactly
    if the maps list descriptors of the same types, addresses and sizes in the
    same order, and the same is known of the access to each. -/
theorem range_lines_identify (bs bs' : BootServices) (showAllTypes showAllTypes' : Bool)
    (lib lib' : MemLib) :
    rangeLines bs showAllTypes lib = rangeLines bs' showAllTypes' lib' ↔
      (listedDescriptors showAllTypes lib).map (lineContent bs lib) =
        (listedDescriptors showAllTypes' lib').map (lineContent bs' lib') := by
  rw [rangeLines, rangeLines]
  generalize listedDescriptors showAllTypes lib = descs
  generalize listedDescriptors showAllTypes' lib' = descs'
  induction descs generalizing descs' with
  | nil => cases descs' <;> simp
  | cons desc descs ih =>
    cases descs' with
    | nil => simp
    | cons desc' descs' =>
      simp only [List.map_cons, List.cons.injEq]
      rw [rangeLine_eq_iff, ih descs']

end

end UefiNexus
