/-
  The console input under `TuiReadKey`.

  * `TextInput.device`: the device that is read, by the lookup of the first call;
  * `keystrokes`: the keys among the results of a device, failed reads left out;
  * a turn of the loop takes the next result of that device and leaves the others alone
    (`readKeyTurn_spec`), so a call takes the next keystroke (`readKeyOnDevices_spec`),
    and calls one after the other take them all, in order (`keys_read_in_order`): the
    devices refine the list of keystrokes of the machine.
-/
import Mathlib.Tactic.SplitIfs
import UefiNexus.Lib.Input
import UefiNexus.Uefi.TextInput

namespace UefiNexus

variable {fw : InputFirmware} {s s' s'' : TextInput} {status : EfiStatus} {key : EfiInputKey}

/-- The device that is read, `none` for `ConIn`. -/
def TextInput.device (fw : InputFirmware) (s : TextInput) : Option ℕ :=
  if s.attempted then s.textInEx
  else if fw.consoleInHandle s.calls then (fw.handleProtocol s.calls).or s.textInEx
  else s.textInEx

/-- The results a device still has to give. -/
def TextInput.results (s : TextInput) : Option ℕ → List (EfiStatus × EfiInputKey)
  | none => s.conIn
  | some device => (s.ex device).map fun r => (r.1, r.2.key)

/-- The keys among the results. -/
def keystrokes : List (EfiStatus × EfiInputKey) → List EfiInputKey
  | [] => []
  | (status, key) :: rs => if efiError status then keystrokes rs else key :: keystrokes rs

/-- Only the device that is read has changed, and it has been looked up once at most. -/
structure Reads (fw : InputFirmware) (s s' : TextInput) : Prop where
  device : s'.device fw = s.device fw
  others : ∀ d, d ≠ s.device fw → s'.results d = s.results d
  lookups : s'.lookups ≤ s.lookups + if s.attempted then 0 else 1
  attempted : s.attempted = true → s'.attempted = true

namespace Reads

theorem refl (fw : InputFirmware) (s : TextInput) : Reads fw s s :=
  ⟨rfl, fun _ _ => rfl, Nat.le_add_right _ _, id⟩

theorem trans (h : Reads fw s s') (h' : Reads fw s' s'') (hatt : s'.attempted = true) :
    Reads fw s s'' := by
  refine ⟨h'.device.trans h.device, fun d hd => ?_, ?_, fun _ => h'.attempted hatt⟩
  · rw [h'.others d (by rwa [h.device]), h.others d hd]
  · have hlookups := h'.lookups
    rw [if_pos hatt] at hlookups
    exact hlookups.trans h.lookups

/-- A read of the device, after the lookup. -/
theorem of_read (hatt : s.attempted = true) (hatt' : s'.attempted = true)
    (htext : s'.textInEx = s.textInEx) (hlookups : s'.lookups = s.lookups)
    (hothers : ∀ d, d ≠ s.textInEx → s'.results d = s.results d) : Reads fw s s' := by
  have hdevice : s.device fw = s.textInEx := by simp [TextInput.device, hatt]
  refine ⟨?_, fun d hd => hothers d (hdevice ▸ hd), ?_, fun _ => hatt'⟩
  · rw [hdevice, ← htext]
    simp [TextInput.device, hatt']
  · rw [hlookups]
    exact Nat.le_add_right _ _

end Reads

/-- **The lookup** finds the device, and finds the same from then on. -/
theorem getTextInEx_spec (fw : InputFirmware) (s : TextInput) :
    ∃ s', getTextInEx fw s = (some (s.device fw), s') ∧ Reads fw s s' ∧ s'.attempted = true ∧
      s'.results = s.results := by
  unfold getTextInEx TextInput.device
  dsimp only
  split_ifs with hatt hhandle
  · refine ⟨_, rfl, ⟨?_, fun _ _ => rfl, Nat.le_add_right _ _, fun _ => hatt⟩, hatt, rfl⟩
    simp [TextInput.device, hatt]
  · refine ⟨_, rfl, ⟨?_, fun _ _ => rfl, ?_, fun _ => rfl⟩, rfl, rfl⟩
    · simp [TextInput.device, hatt, hhandle]
    · simp [hatt]
  · refine ⟨_, rfl, ⟨?_, fun _ _ => rfl, Nat.le_add_right _ _, fun _ => rfl⟩, rfl, rfl⟩
    simp [TextInput.device, hatt, hhandle]

/-! ## A turn of the loop -/

/-- `ReadKeyStroke` of `ConIn` waits for ever, or gives its next result. -/
theorem readKeyStroke_spec (s : TextInput) :
    (s.conIn = [] → readKeyStroke s = (none, s)) ∧
    ∀ r rs, s.conIn = r :: rs → readKeyStroke s = (some r, { s with conIn := rs }) := by
  unfold readKeyStroke
  refine ⟨fun h => ?_, fun r rs h => ?_⟩
  · rw [h]
  · rw [h]

/-- `ReadKeyStrokeEx` of an interface does so. -/
theorem readKeyStrokeEx_spec (d : ℕ) (s : TextInput) :
    (s.ex d = [] → readKeyStrokeEx d s = (none, s)) ∧
    ∀ r rs, s.ex d = r :: rs →
      readKeyStrokeEx d s = (some r, { s with ex := fun d' => if d' = d then rs else s.ex d' }) := by
  unfold readKeyStrokeEx
  refine ⟨fun h => ?_, fun r rs h => ?_⟩
  · rw [h]
  · rw [h]

/-- **A turn** waits for ever, or takes the next result of the device. -/
theorem readKeyTurn_spec (fw : InputFirmware) (s : TextInput) :
    (s.results (s.device fw) = [] →
      ∃ s', readKeyTurn fw s = (none, s') ∧ Reads fw s s' ∧ s'.results (s.device fw) = []) ∧
    ∀ status key rs, s.results (s.device fw) = (status, key) :: rs →
      ∃ s', readKeyTurn fw s = (some (if efiError status then .inl () else .inr key), s') ∧
        Reads fw s s' ∧ s'.attempted = true ∧ s'.results (s.device fw) = rs := by
  obtain ⟨t, hget, hreads, hatt, hresults⟩ := getTextInEx_spec fw s
  have htext : t.textInEx = s.device fw := by
    have hdevice := hreads.device
    simpa [TextInput.device, hatt] using hdevice
  unfold readKeyTurn
  rw [Prog.bind_of_some hget, ← hresults]
  rcases hd : s.device fw with _ | d
  · refine ⟨fun hnil => ⟨t, ?_, hreads, hnil⟩, fun status key rs hcons => ?_⟩
    · exact Prog.bind_of_none ((readKeyStroke_spec t).1 hnil)
    · refine ⟨{ t with conIn := rs }, ?_, ?_, hatt, rfl⟩
      · dsimp only
        rw [Prog.bind_of_some ((readKeyStroke_spec t).2 _ rs hcons)]
        cases efiError status <;> rfl
      · refine hreads.trans (.of_read hatt hatt rfl rfl fun d' hd' => ?_) hatt
        rcases d' with _ | d'
        · exact absurd (htext.trans hd).symm hd'
        · rfl
  · refine ⟨fun hnil => ⟨t, ?_, hreads, hnil⟩, fun status key rs hcons => ?_⟩
    · have hex : t.ex d = [] := List.map_eq_nil_iff.1 hnil
      exact Prog.bind_of_none ((readKeyStrokeEx_spec d t).1 hex)
    · obtain ⟨⟨status', keyData⟩, rs', hex, hr, hrs⟩ := List.map_eq_cons_iff.1 hcons
      simp only [Prod.mk.injEq] at hr
      obtain ⟨rfl, rfl⟩ := hr
      refine ⟨{ t with ex := fun d' => if d' = d then rs' else t.ex d' }, ?_, ?_, hatt, ?_⟩
      · dsimp only
        rw [Prog.bind_of_some ((readKeyStrokeEx_spec d t).2 _ rs' hex)]
        cases efiError status' <;> rfl
      · refine hreads.trans (.of_read hatt hatt rfl rfl fun d' hd' => ?_) hatt
        rcases d' with _ | d'
        · rfl
        · have hne : d' ≠ d := by
            rintro rfl
            exact hd' (htext.trans hd).symm
          simp [TextInput.results, hne]
      · simp [TextInput.results, hrs]

/-! ## Calls -/

/-- **A call of `TuiReadKey`** takes the next keystroke of the device, or waits for ever
    when there is none. -/
theorem readKeyOnDevices_spec (fw : InputFirmware) : ∀ (rs : List (EfiStatus × EfiInputKey))
    (fuel : ℕ) (s : TextInput), s.results (s.device fw) = rs → rs.length < fuel →
    ∃ s', readKeyOnDevices fw fuel s = ((keystrokes rs).head?, s') ∧ Reads fw s s' ∧
      keystrokes (s'.results (s.device fw)) = (keystrokes rs).tail ∧
      (s'.results (s.device fw)).length ≤ rs.length ∧
      (keystrokes rs ≠ [] → s'.attempted = true)
  | [], fuel, s, hrs, hfuel => by
    obtain ⟨fuel, rfl⟩ := Nat.exists_eq_add_of_lt hfuel
    obtain ⟨s', hturn, hreads, hnil⟩ := (readKeyTurn_spec fw s).1 hrs
    refine ⟨s', ?_, hreads, ?_, ?_, fun h => absurd rfl h⟩
    · rw [readKeyOnDevices, Input.loop_pure_succ, Prog.bind_of_none hturn]
      rfl
    · rw [hnil]
      rfl
    · rw [hnil]
  | (status, key) :: rs, fuel, s, hrs, hfuel => by
    obtain ⟨fuel, rfl⟩ : ∃ n, fuel = n + 1 := ⟨fuel - 1, by simp only [List.length_cons] at hfuel; omega⟩
    obtain ⟨t, hturn, hreads, hatt, hrest⟩ := (readKeyTurn_spec fw s).2 status key rs hrs
    have hdevice := hreads.device
    cases herr : efiError status with
    | false =>
      rw [herr] at hturn
      have hkeys : keystrokes ((status, key) :: rs) = key :: keystrokes rs := by
        simp [keystrokes, herr]
      refine ⟨t, ?_, hreads, ?_, ?_, fun _ => hatt⟩
      · rw [hkeys]
        rw [readKeyOnDevices, Input.loop_pure_succ, Prog.bind_of_some hturn]
        rfl
      · rw [hkeys, hrest]
        rfl
      · rw [hrest]
        exact Nat.le_succ _
    | true =>
      -- a failed read: another turn
      rw [herr] at hturn
      have hkeys : keystrokes ((status, key) :: rs) = keystrokes rs := by
        simp [keystrokes, herr]
      obtain ⟨s', hrun, hreads', htail, hlen, -⟩ := readKeyOnDevices_spec fw rs fuel t
        (by rw [hdevice, hrest]) (by simp only [List.length_cons] at hfuel; omega)
      rw [hdevice] at htail hlen
      refine ⟨s', ?_, hreads.trans hreads' hatt, ?_, ?_, fun _ => hreads'.attempted hatt⟩
      · rw [hkeys, ← hrun]
        rw [readKeyOnDevices, Input.loop_pure_succ, Prog.bind_of_some hturn]
        rfl
      · rw [hkeys, htail]
      · exact hlen.trans (Nat.le_succ _)

/-- **Calls one after the other** take the keystrokes in order. -/
theorem readKeys_spec (fw : InputFirmware) (fuel : ℕ) : ∀ (n : ℕ) (s : TextInput),
    (s.results (s.device fw)).length < fuel →
    ∃ s', readKeys (readKeyOnDevices fw fuel) n s =
        (if n ≤ (keystrokes (s.results (s.device fw))).length then
          some ((keystrokes (s.results (s.device fw))).take n) else none, s') ∧
      Reads fw s s' ∧
      keystrokes (s'.results (s.device fw)) = (keystrokes (s.results (s.device fw))).drop n
  | 0, s, _ => ⟨s, by simp [readKeys], .refl fw s, by simp⟩
  | n + 1, s, hfuel => by
    obtain ⟨t, hread, hreads, htail, hlen, hatt⟩ := readKeyOnDevices_spec fw _ fuel s rfl hfuel
    have hdevice := hreads.device
    rcases hkeys : keystrokes (s.results (s.device fw)) with _ | ⟨key, keys⟩
    · rw [hkeys] at hread htail
      refine ⟨t, ?_, hreads, htail⟩
      rw [readKeys, Prog.bind_of_none hread]
      simp
    · rw [hkeys] at hread htail hatt
      obtain ⟨s', hrest, hreads', hdrop⟩ := readKeys_spec fw fuel n t
        (by rw [hdevice]; exact Nat.lt_of_le_of_lt hlen hfuel)
      rw [hdevice, htail] at hrest hdrop
      refine ⟨s', ?_, hreads.trans hreads' (hatt (by simp)), hdrop⟩
      rw [readKeys, Prog.bind_of_some hread]
      by_cases hn : n ≤ keys.length
      · rw [List.tail_cons, if_pos hn] at hrest
        rw [Prog.bind_of_some hrest, if_pos (by simpa using hn)]
        rfl
      · rw [List.tail_cons, if_neg hn] at hrest
        rw [Prog.bind_of_none hrest, if_neg (by simpa using hn)]

/-- The calls on a machine with the keystrokes in a list. -/
theorem readKeys_machine (n : ℕ) (w : UefiWorld) :
    readKeys tuiReadKey n w = (if n ≤ w.keys.length then some (w.keys.take n) else none,
      { w with keys := w.keys.drop n }) := by
  induction n generalizing w with
  | zero => simp [readKeys]
  | succ n ih =>
    obtain ⟨lib, inits, bridge, size, stride, core, count, memory, keys, console⟩ := w
    rw [readKeys]
    rcases keys with _ | ⟨key, keys⟩
    · have hread : tuiReadKey ⟨lib, inits, bridge, size, stride, core, count, memory, [], console⟩ =
          (none, ⟨lib, inits, bridge, size, stride, core, count, memory, [], console⟩) := rfl
      rw [Prog.bind_of_none hread]
      simp
    · have hread : tuiReadKey
          ⟨lib, inits, bridge, size, stride, core, count, memory, key :: keys, console⟩ =
          (some key, ⟨lib, inits, bridge, size, stride, core, count, memory, keys, console⟩) := rfl
      rw [Prog.bind_of_some hread]
      have hrest := ih ⟨lib, inits, bridge, size, stride, core, count, memory, keys, console⟩
      dsimp only at hrest
      by_cases hn : n ≤ keys.length
      · rw [if_pos hn] at hrest
        rw [Prog.bind_of_some hrest]
        simp [hn]
      · rw [if_neg hn] at hrest
        rw [Prog.bind_of_none hrest]
        simp [hn]

/-- **The devices refine the list of keystrokes.**  Let the device be the interface that
    the first call of `GetTextInEx` finds, or else `ConIn`.  Then any number of calls of
    `TuiReadKey` return the keystrokes of this device, in order, no key lost, repeated or
    made up, failed reads passed over; they wait exactly when the device has no further
    keystroke; they leave all other devices alone, and make the lookup at most once,
    whatever a later lookup would find.  So they return what they return on a machine
    whose list of keystrokes has those of the device. -/
theorem keys_read_in_order (fw : InputFirmware) (conIn : List (EfiStatus × EfiInputKey))
    (ex : ℕ → List (EfiStatus × EfiKeyData)) (device : Option ℕ)
    (hdevice : device = if fw.consoleInHandle 0 then fw.handleProtocol 0 else none) (fuel n : ℕ)
    (hfuel : ((TextInput.boot conIn ex).results device).length < fuel) (w : UefiWorld)
    (hw : w.keys = keystrokes ((TextInput.boot conIn ex).results device)) :
    ∃ s', readKeys (readKeyOnDevices fw fuel) n (.boot conIn ex) =
        ((readKeys tuiReadKey n w).1, s') ∧
      (readKeys tuiReadKey n w).1 = (if n ≤ w.keys.length then some (w.keys.take n) else none) ∧
      keystrokes (s'.results device) = (readKeys tuiReadKey n w).2.keys ∧
      (∀ d, d ≠ device → s'.results d = (TextInput.boot conIn ex).results d) ∧ s'.lookups ≤ 1 := by
  have hboot : (TextInput.boot conIn ex).device fw = device := by
    simp [TextInput.device, TextInput.boot, hdevice]
  have hread := readKeys_spec fw fuel n (.boot conIn ex)
  rw [hboot, ← hw] at hread
  obtain ⟨s', hrun, hreads, hdrop⟩ := hread hfuel
  rw [readKeys_machine]
  refine ⟨s', hrun, rfl, hdrop, fun d hd => hreads.others d (by rwa [hboot]), ?_⟩
  exact hreads.lookups

/-- A firmware whose first lookup finds an interface, and whose later ones would not. -/
def changingInput : InputFirmware := ⟨fun _ => true, fun n => if n = 0 then some 1 else none⟩

/-- A failed read and two keys on the interface, and nothing on the others. -/
def exResults : ℕ → List (EfiStatus × EfiKeyData) := fun d =>
  if d = 1 then
    [(efiNotFound, ⟨⟨0, 0⟩, 0, 0⟩), (efiSuccess, ⟨⟨0, L 'e'⟩, 1, 0⟩), (efiSuccess, ⟨⟨0x17, 0⟩, 0, 0⟩)]
  else []

theorem keys_read_in_order_ex :
    (readKeys (readKeyOnDevices changingInput 4) 2 (.boot [(efiSuccess, ⟨0, L 'x'⟩)] exResults)).1 =
      some [⟨0, L 'e'⟩, ⟨0x17, 0⟩] := by
  obtain ⟨s', hrun, hkeys, -⟩ := keys_read_in_order changingInput [(efiSuccess, ⟨0, L 'x'⟩)] exResults
    (some 1) rfl 4 2 (by decide) (.boot (fun _ => 0) [⟨0, L 'e'⟩, ⟨0x17, 0⟩]) rfl
  rw [hrun, hkeys]
  rfl

end UefiNexus
