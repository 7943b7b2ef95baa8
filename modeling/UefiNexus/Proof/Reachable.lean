/-
  Every byte can be reached.

  * `Drives m n ks v v'`: the keys `ks` take the viewer from `v` to `v'`, in `n`
    steps, whatever is typed after them;
  * `drives_to`: some page and arrow keys take it to any byte of any block;
  * `every_byte_reachable`: hence PageMem, wherever a run has taken it.
-/
import UefiNexus.Proof.Viewer

namespace UefiNexus

open Viewer

/-! ## Keys of the viewer -/

/-- The keys `ks` take the viewer from `v` to `v'`. -/
abbrev Drives (m : Viewed) (n : ℕ) (ks : List EfiInputKey) (v v' : Viewer) : Prop :=
  Refine.Drives (Viewer.step m) (fun keys (v : Viewer) => { v with keys := keys }) n ks v v'

/-- Right, left, `1`, `n` and `p`. -/
def rightKey : EfiInputKey := ⟨0x0003, 0⟩
def leftKey : EfiInputKey := ⟨0x0004, 0⟩
def byteKey : EfiInputKey := ⟨0, L '1'⟩
def nextKey : EfiInputKey := ⟨0, L 'n'⟩
def previousKey : EfiInputKey := ⟨0, L 'p'⟩

/-- The keys of a page and of the cells in it. -/
def navigationKeys : List EfiInputKey := [rightKey, leftKey, byteKey, nextKey, previousKey]

section
variable {m : Viewed} {v : Viewer}

/-- An arrow key. -/
theorem drives_arrow {key : EfiInputKey} {bytes : ℤ} (hesc : key.scanCode ≠ scanEsc)
    (harrow : arrow v.width key = some bytes) :
    Drives m 1 [key] v { v with offset := select v.width (v.offset + bytes) } :=
  Refine.Drives.single fun rest =>
    @step_arrow _ { v with keys := key :: rest } _ _ _ rfl hesc harrow

/-- A command that takes no other keys. -/
theorem drives_command {key : EfiInputKey} {v' : Viewer} (hesc : key.scanCode ≠ scanEsc)
    (harrow : arrow v.width key = none)
    (hobey : ∀ rest, obey m { v with keys := rest } (command key.unicodeChar) =
      some { v' with keys := rest }) : Drives m 1 [key] v v' :=
  Refine.Drives.single fun rest =>
    (@step_command _ { v with keys := key :: rest } _ _ rfl hesc harrow).trans (hobey rest)

/-! ## Within a block -/

/-- The viewer on a byte of its block. -/
def Viewer.byteAt (v : Viewer) (offset : ℕ) : Viewer := { v with offset := offset, width := 1 }

theorem select_one {offset : ℕ} (h : offset < 256) : select 1 (offset : ℤ) = offset := by
  unfold select
  rw [Nat.div_one, Nat.mul_one]
  omega

theorem drives_byte (m : Viewed) (v : Viewer) : Drives m 1 [byteKey] v (v.byteAt v.offset) := by
  refine drives_command (by decide) rfl fun rest => ?_
  show some { v with width := 1, offset := v.offset / 1 * 1, keys := rest } = _
  rw [Nat.div_one, Nat.mul_one]
  rfl

theorem drives_right (m : Viewed) (v : Viewer) {o : ℕ} (h : o + 1 < 256) :
    Drives m 1 [rightKey] (v.byteAt o) (v.byteAt (o + 1)) := by
  have hmove : Drives m 1 [rightKey] (v.byteAt o) (v.byteAt (select 1 (o + 1))) :=
    drives_arrow (by decide) rfl
  have hsum : (o : ℤ) + 1 = ((o + 1 : ℕ) : ℤ) := by omega
  rw [hsum, select_one h] at hmove
  exact hmove

theorem drives_left (m : Viewed) (v : Viewer) {o : ℕ} (h : o + 1 < 256) :
    Drives m 1 [leftKey] (v.byteAt (o + 1)) (v.byteAt o) := by
  have hmove : Drives m 1 [leftKey] (v.byteAt (o + 1))
      (v.byteAt (select 1 (((o + 1 : ℕ) : ℤ) + -1))) := drives_arrow (by decide) rfl
  have hback : ((o + 1 : ℕ) : ℤ) + -1 = (o : ℤ) := by omega
  rw [hback, select_one (by omega)] at hmove
  exact hmove

/-- From a byte to another, with some right or left keys. -/
theorem drives_in_block (m : Viewed) (v : Viewer) {o b : ℕ} (ho : o < 256) (hb : b < 256) :
    ∃ ks, (∀ key ∈ ks, key ∈ navigationKeys) ∧
      Drives m ks.length ks (v.byteAt o) (v.byteAt b) := by
  have hmem : ∀ (key : EfiInputKey) (d : ℕ), key ∈ navigationKeys →
      ∀ key' ∈ List.replicate d key, key' ∈ navigationKeys := by
    intro key d hkey key' h
    rw [List.eq_of_mem_replicate h]
    exact hkey
  rcases Nat.le_total o b with hle | hle
  · obtain ⟨d, rfl⟩ := Nat.exists_eq_add_of_le hle
    refine ⟨List.replicate d rightKey, hmem _ d (by decide), ?_⟩
    have hstep : ∀ i < d, Drives m 1 [rightKey] (v.byteAt (o + i)) (v.byteAt (o + (i + 1))) :=
      fun i hi => drives_right m v (by omega)
    rw [List.length_replicate]
    exact Refine.Drives.replicate hstep
  · obtain ⟨d, rfl⟩ := Nat.exists_eq_add_of_le hle
    refine ⟨List.replicate d leftKey, hmem _ d (by decide), ?_⟩
    have hstep : ∀ i < d,
        Drives m 1 [leftKey] (v.byteAt (b + d - i)) (v.byteAt (b + d - (i + 1))) := by
      intro i hi
      have hpred : b + d - i = b + d - (i + 1) + 1 := by omega
      rw [hpred]
      exact drives_left m v (by omega)
    have hdrives := Refine.Drives.replicate hstep
    rw [Nat.add_sub_cancel_right] at hdrives
    rw [List.length_replicate]
    exact hdrives

/-! ## To another block -/

/-- Up to a block: the distance shrinks with every page down. -/
theorem drives_up (m : Viewed) {q : ℕ} (hq : q ∈ m.blocks) (v : Viewer) (hlt : v.block < q) :
    ∃ ks, (∀ key ∈ ks, key ∈ navigationKeys) ∧
      Drives m ks.length ks v { v with block := q, offset := 0 } := by
  obtain ⟨d, hd⟩ : ∃ d, d = q - v.block := ⟨_, rfl⟩
  induction d using Nat.strong_induction_on generalizing v with
  | _ d ih =>
    obtain ⟨p, hp⟩ : ∃ p, above m.blocks v.block = some p := by
      rcases h : above m.blocks v.block with _ | p
      · exact absurd hlt (above_eq_none.1 h q hq)
      · exact ⟨p, rfl⟩
    obtain ⟨⟨-, hpv⟩, hleast⟩ := above_eq_some.1 hp
    have hstep : Drives m 1 [nextKey] v { v with block := p, offset := 0 } := by
      refine drives_command (by decide) rfl fun rest => ?_
      show some (({ v with keys := rest } : Viewer).turn (above m.blocks v.block)) = _
      rw [hp]
      rfl
    have hmem : nextKey ∈ navigationKeys := by decide
    rcases Nat.lt_or_eq_of_le (hleast ⟨hq, hlt⟩) with hpq | rfl
    · obtain ⟨ks, hks, hdrives⟩ := ih (q - p) (by omega) { v with block := p, offset := 0 } hpq rfl
      refine ⟨nextKey :: ks, List.forall_mem_cons.2 ⟨hmem, hks⟩, ?_⟩
      rw [List.length_cons, Nat.add_comm]
      exact hstep.trans hdrives
    · exact ⟨[nextKey], by simpa using hmem, hstep⟩

/-- Down to a block. -/
theorem drives_down (m : Viewed) {q : ℕ} (hq : q ∈ m.blocks) (v : Viewer) (hlt : q < v.block) :
    ∃ ks, (∀ key ∈ ks, key ∈ navigationKeys) ∧
      Drives m ks.length ks v { v with block := q, offset := 0 } := by
  obtain ⟨d, hd⟩ : ∃ d, d = v.block := ⟨_, rfl⟩
  induction d using Nat.strong_induction_on generalizing v with
  | _ d ih =>
    obtain ⟨p, hp⟩ : ∃ p, below m.blocks v.block = some p := by
      rcases h : below m.blocks v.block with _ | p
      · exact absurd hlt (below_eq_none.1 h q hq)
      · exact ⟨p, rfl⟩
    obtain ⟨⟨-, hpv⟩, hgreatest⟩ := below_eq_some.1 hp
    have hstep : Drives m 1 [previousKey] v { v with block := p, offset := 0 } := by
      refine drives_command (by decide) rfl fun rest => ?_
      show some (({ v with keys := rest } : Viewer).turn (below m.blocks v.block)) = _
      rw [hp]
      rfl
    have hmem : previousKey ∈ navigationKeys := by decide
    rcases Nat.lt_or_eq_of_le (hgreatest ⟨hq, hlt⟩) with hqp | rfl
    · obtain ⟨ks, hks, hdrives⟩ := ih p (by omega) { v with block := p, offset := 0 } hqp rfl
      refine ⟨previousKey :: ks, List.forall_mem_cons.2 ⟨hmem, hks⟩, ?_⟩
      rw [List.length_cons, Nat.add_comm]
      exact hstep.trans hdrives
    · exact ⟨[previousKey], by simpa using hmem, hstep⟩

/-- **To any byte of any block.** -/
theorem drives_to (m : Viewed) (v : Viewer) (hv : v.offset < 256) {q b : ℕ} (hq : q ∈ m.blocks)
    (hb : b < 256) :
    ∃ ks, (∀ key ∈ ks, key ∈ navigationKeys) ∧
      Drives m ks.length ks v { v with block := q, offset := b, width := 1 } := by
  obtain ⟨ks, offset, hoffset, hks, hdrives⟩ : ∃ ks offset, offset < 256 ∧
      (∀ key ∈ ks, key ∈ navigationKeys) ∧
      Drives m ks.length ks v { v with block := q, offset := offset } := by
    rcases Nat.lt_trichotomy v.block q with hlt | heq | hlt
    · obtain ⟨ks, hks, hdrives⟩ := drives_up m hq v hlt
      exact ⟨ks, 0, by omega, hks, hdrives⟩
    · refine ⟨[], v.offset, hv, by simp, ?_⟩
      rw [← heq]
      exact Refine.Drives.refl v
    · obtain ⟨ks, hks, hdrives⟩ := drives_down m hq v hlt
      exact ⟨ks, 0, by omega, hks, hdrives⟩
  obtain ⟨ls, hls, hmove⟩ := drives_in_block m { v with block := q } hoffset hb
  have hbyte := drives_byte m { v with block := q, offset := offset }
  refine ⟨ks ++ ([byteKey] ++ ls), ?_, ?_⟩
  · intro key hkey
    simp only [List.mem_append, List.mem_singleton] at hkey
    rcases hkey with hkey | rfl | hkey
    · exact hks key hkey
    · decide
    · exact hls key hkey
  · rw [List.length_append, List.length_append]
    exact hdrives.trans (hbyte.trans hmove)

end

/-! ## In a run -/

section
variable {fw : Firmware} {s : PageMemPageState} {w : UefiWorld}

/-- What drives the viewer drives PageMem, from every state in which it awaits a key. -/
theorem runVisits_drives (hpos : Positional fw.strHexToUint64) (hempty : fw.strHexToUint64 [] = 0)
    {s₀ : PageMemPageState} {w₀ : UefiWorld} {n k : ℕ}
    (hvisit : runVisits (uefiAdapters fw) n s₀ w₀ = some (s, w)) (hal : MapAligned s.addressMap)
    {ks : List EfiInputKey} {v : Viewer}
    (h : Drives (viewed fw s.addressMap w.memLib) k ks (view s w) v) (rest : List EfiInputKey) :
    ∃ s' w', Prog.visits (redrawIfNeeded (uefiAdapters fw)) (serveKey (uefiAdapters fw)) k s
        { w with keys := ks ++ rest } = some (s', w') ∧ view s' w' = { v with keys := rest } := by
  obtain ⟨hlib, hviewing⟩ := visited_viewing hvisit
  have hrun := (controller_refines hpos hempty hal hlib).visits k s { w with keys := ks ++ rest }
    (hviewing.withKeys (ks ++ rest))
  have hload : view s { w with keys := ks ++ rest } = { view s w with keys := ks ++ rest } := rfl
  rw [hload, h rest, Option.map_eq_some_iff] at hrun
  obtain ⟨⟨s', w'⟩, hvisits, hview⟩ := hrun
  exact ⟨s', w', hvisits, hview⟩

end

/-- **Every byte can be reached.**  Wherever a run awaits a key, if the descriptors
    start at a page boundary, then some page, arrow and width keys take it to any
    byte of any block of the map, and leave physical memory alone. -/
theorem every_byte_reachable (fw : Firmware) (hpos : Positional fw.strHexToUint64)
    (hempty : fw.strHexToUint64 [] = 0) (n : ℕ) (s₀ s : PageMemPageState) (w₀ w : UefiWorld)
    (hvisit : runVisits (uefiAdapters fw) n s₀ w₀ = some (s, w)) (hal : MapAligned s.addressMap)
    (p : NxU64) (hp : Block s.addressMap p) (b : ℕ) (hb : b < 256) :
    ∃ ks, (∀ key ∈ ks, key ∈ navigationKeys) ∧
      ∀ rest, ∃ s' w', Prog.visits (redrawIfNeeded (uefiAdapters fw)) (serveKey (uefiAdapters fw))
          ks.length s { w with keys := ks ++ rest } = some (s', w') ∧
        s'.cursorState = ⟨p, BitVec.ofNat 64 b, 1⟩ ∧ w'.keys = rest ∧ w'.memory = w.memory := by
  obtain ⟨-, hviewing⟩ := visited_viewing hvisit
  have hblock : p.toNat ∈ (viewed fw s.addressMap w.memLib).blocks := ⟨p, hp, rfl⟩
  obtain ⟨ks, hks, hdrives⟩ := drives_to (viewed fw s.addressMap w.memLib) (view s w)
    hviewing.drawable.offset hblock hb
  refine ⟨ks, hks, fun rest => ?_⟩
  obtain ⟨s', w', hvisits, hview⟩ := runVisits_drives hpos hempty hvisit hal hdrives rest
  refine ⟨s', w', hvisits, ?_, congrArg Viewer.keys hview, congrArg Viewer.memory hview⟩
  refine cursor_of_toNat (congrArg Viewer.block hview) ?_ (congrArg Viewer.width hview)
  have hoffset : s'.cursorState.offset.toNat = b := congrArg Viewer.offset hview
  rw [hoffset, BitVec.toNat_ofNat]
  omega

/-- To the byte at `0x1F12`, from the first key of a run. -/
theorem every_byte_reachable_last :
    ∃ s w, runVisits (uefiAdapters codecFirmware) 0 enterState
        (.boot (fun _ => 0xAA) viewerKeys) = some (s, w) ∧
      ∃ ks, (∀ key ∈ ks, key ∈ navigationKeys) ∧
        ∀ rest, ∃ s' w', Prog.visits (redrawIfNeeded (uefiAdapters codecFirmware))
            (serveKey (uefiAdapters codecFirmware)) ks.length s { w with keys := ks ++ rest } =
              some (s', w') ∧
          s'.cursorState = ⟨0x1F00, 0x12, 1⟩ ∧ w'.keys = rest ∧ w'.memory = w.memory := by
  obtain ⟨s, w, hfirst, hdescs, hal, -⟩ := viewerKeys_first
  have hblock : Block s.addressMap 0x1F00 := by
    refine ⟨by decide, ?_⟩
    unfold pageCoreIsRangeValid
    rw [hdescs]
    rfl
  exact ⟨s, w, hfirst, every_byte_reachable codecFirmware codecFirmware_positional rfl 0 enterState
    s _ w hfirst hal 0x1F00 hblock 0x12 (by decide)⟩

end UefiNexus
