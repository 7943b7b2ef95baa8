/-
  UefiNexus model — the console input under `TuiReadKey` (`TuiInput.c`).

  `World.lean` takes the keystrokes as a list.  Here are the devices they come from:
  `ConIn`, and the Simple Text Input Ex interfaces `HandleProtocol` may find.  A device
  has the results its `ReadKeyStroke` calls still have to give, each after an event of
  the device; when there is none left, `WaitForEvent` never returns.

  `TextInEx` and `Attempted` are the static variables of `GetTextInEx`.  What it finds
  in `gST->ConsoleInHandle`, and what `HandleProtocol` stores, may be another thing at
  every call; the status of `HandleProtocol` is not looked at.
-/
import UefiNexus.Uefi.World

namespace UefiNexus

/-- `EFI_KEY_DATA`. -/
structure EfiKeyData where
  key : EfiInputKey
  keyShiftState : NxU32
  keyToggleState : NxU8

/-- What `GetTextInEx` finds at its call number `n`. -/
structure InputFirmware where
  /-- `gST->ConsoleInHandle` is not `NULL`. -/
  consoleInHandle : ℕ → Bool
  /-- The interface `HandleProtocol` stores, `none` if it stores none. -/
  handleProtocol : ℕ → Option ℕ

/-- The static variables of `GetTextInEx`, the calls made so far, and the devices. -/
structure TextInput where
  textInEx : Option ℕ
  attempted : Bool
  calls : ℕ
  lookups : ℕ
  conIn : List (EfiStatus × EfiInputKey)
  ex : ℕ → List (EfiStatus × EfiKeyData)

/-- At boot. -/
def TextInput.boot (conIn : List (EfiStatus × EfiInputKey))
    (ex : ℕ → List (EfiStatus × EfiKeyData)) : TextInput := ⟨none, false, 0, 0, conIn, ex⟩

/-- `GetTextInEx`. -/
def getTextInEx (fw : InputFirmware) : Prog TextInput (Option ℕ) := fun s =>
  let s' : TextInput :=
    if s.attempted then s
    else if fw.consoleInHandle s.calls then
      { s with
        attempted := true
        textInEx := (fw.handleProtocol s.calls).or s.textInEx
        lookups := s.lookups + 1 }
    else { s with attempted := true }
  (some s'.textInEx, { s' with calls := s'.calls + 1 })

/-- `WaitForEvent` and `ReadKeyStrokeEx` of an interface. -/
def readKeyStrokeEx (device : ℕ) : Prog TextInput (EfiStatus × EfiKeyData) := fun s =>
  match s.ex device with
  | [] => (none, s)
  | r :: rs => (some r, { s with ex := fun d => if d = device then rs else s.ex d })

/-- `WaitForEvent` and `ReadKeyStroke` of `ConIn`. -/
def readKeyStroke : Prog TextInput (EfiStatus × EfiInputKey) := fun s =>
  match s.conIn with
  | [] => (none, s)
  | r :: rs => (some r, { s with conIn := rs })

/-- The body of `TuiReadKey`'s loop: a key, or another turn. -/
def readKeyTurn (fw : InputFirmware) : Prog TextInput (Unit ⊕ EfiInputKey) := do
  match ← getTextInEx fw with
  | some device =>
    let (status, keyData) ← readKeyStrokeEx device
    if ¬ efiError status then return .inr ⟨keyData.key.scanCode, keyData.key.unicodeChar⟩
    else return .inl ()
  | none =>
    let (status, key) ← readKeyStroke
    if ¬ efiError status then return .inr key
    else return .inl ()

/-- `TuiReadKey`, at most `fuel` times through the loop. -/
def readKeyOnDevices (fw : InputFirmware) (fuel : ℕ) : Prog TextInput EfiInputKey :=
  Prog.loop pure (fun _ => readKeyTurn fw) fuel ()

/-- `n` calls of `TuiReadKey`, one after the other. -/
def readKeys {W : Type} (readKey : Prog W EfiInputKey) : ℕ → Prog W (List EfiInputKey)
  | 0 => pure []
  | n + 1 => do
    let key ← readKey
    let keys ← readKeys readKey n
    return key :: keys

end UefiNexus
