/-
  UefiNexus model — the adapter interfaces (`AdapterInterface.h`).

  An interface is a record of programs over the state `W` of the platform, which
  is left abstract: the PageMem controller, actions and view are written against
  these records only, so what is proved about them holds for any adapters.

  * Out parameters are part of the result.  `getMemoryTypeAtAddress` and
    `queryAccess` write through pointers into the page state, so they also get
    what is stored there before the call.
  * `traced a`: the adapters `a`, with the calls recorded in order;
  * `a.Serves S Φ`: the calls `S` of the adapters `a` have the property `Φ`.
-/
import UefiNexus.Base
import UefiNexus.Lib.Prog

namespace UefiNexus

variable {W : Type}

/-- `MEMORY_ADAPTER_INTERFACE`.  `GetMemoryTypeAtAddress` and `QueryAccess` are
    optional: a page is shown without them.  The controller compares `Init` and
    `GetMemoryMapDescriptors` with `NULL` as well, and returns `NX_UI_NOT_FOUND`; they
    are taken to be present. -/
structure MemoryAdapterInterface (W : Type) where
  init : Prog W NxStatus
  memRead : NxU64 → NxUintn → Prog W (NxStatus × NxU64)
  memWrite : NxU64 → NxUintn → NxU64 → Prog W NxStatus
  getMemoryMapDescriptors : Prog W (Option (List NxMemoryDescriptor))
  getMemoryTypeAtAddress : Option (NxU64 → NxU32 × NxBool → Prog W (NxStatus × NxU32 × NxBool))
  queryAccess : Option (NxU64 → NxU64 → NxMemoryAccess → Prog W NxMemoryAccess)
  dumpValidRanges : Prog W Unit

/-- `TUI_ADAPTER_INTERFACE`.  After a failed `getScreenDimensions` the dimensions
    are what the caller finds in its variables.  The view also compares
    `OutputStringAt` and `GetScreenDimensions` with `NULL`; they are taken to be
    present. -/
structure TuiAdapterInterface (W : Type) where
  clearScreen : Prog W Unit
  setAttribute : NxUintn → Prog W Unit
  setCursorPosition : NxUintn → NxUintn → Prog W Unit
  outputString : List NxUiChar → Prog W Unit
  outputStringAt : NxUintn → NxUintn → List NxUiChar → Prog W Unit
  readKey : Prog W NxUiKey
  readHex : NxUintn → Prog W (NxBool × NxU64)
  getScreenDimensions : Prog W (NxStatus × NxUintn × NxUintn)

/-- `ERROR_ADAPTER_INTERFACE`. -/
structure ErrorAdapterInterface (W : Type) where
  reportError : List NxUiChar → NxStatus → Prog W Unit

/-- `ADAPTER_MANAGER`. -/
structure AdapterManager (W : Type) where
  memory : MemoryAdapterInterface W
  tui : TuiAdapterInterface W
  error : ErrorAdapterInterface W

/-! ## Recording the calls -/

/-- A call of an adapter operation, with its arguments. -/
inductive AdapterCall where
  | init
  | memRead (address : NxU64) (width : NxUintn)
  | memWrite (address : NxU64) (width : NxUintn) (value : NxU64)
  | getMemoryMapDescriptors
  | getMemoryTypeAtAddress (address : NxU64)
  | queryAccess (baseAddress length : NxU64)
  | dumpValidRanges
  | clearScreen
  | setAttribute (attr : NxUintn)
  | setCursorPosition (column row : NxUintn)
  | outputString (string : List NxUiChar)
  | outputStringAt (column row : NxUintn) (string : List NxUiChar)
  | readKey
  | readHex (maxDigits : NxUintn)
  | getScreenDimensions
  | reportError (message : List NxUiChar) (status : NxStatus)
  deriving DecidableEq, Repr

/-- The program `m`, recorded as the call `c`. -/
def record {α : Type} (c : AdapterCall) (m : Prog W α) : Prog (W × List AdapterCall) α :=
  fun w => ((m w.1).1, (m w.1).2, w.2 ++ [c])

/-- The adapters `a`, recording every call when it is made. -/
def traced (a : AdapterManager W) : AdapterManager (W × List AdapterCall) where
  memory :=
    { init := record .init a.memory.init
      memRead := fun ad w => record (.memRead ad w) (a.memory.memRead ad w)
      memWrite := fun ad w v => record (.memWrite ad w v) (a.memory.memWrite ad w v)
      getMemoryMapDescriptors := record .getMemoryMapDescriptors a.memory.getMemoryMapDescriptors
      getMemoryTypeAtAddress := a.memory.getMemoryTypeAtAddress.map fun f ad old =>
        record (.getMemoryTypeAtAddress ad) (f ad old)
      queryAccess := a.memory.queryAccess.map fun f ad l old =>
        record (.queryAccess ad l) (f ad l old)
      dumpValidRanges := record .dumpValidRanges a.memory.dumpValidRanges }
  tui :=
    { clearScreen := record .clearScreen a.tui.clearScreen
      setAttribute := fun n => record (.setAttribute n) (a.tui.setAttribute n)
      setCursorPosition := fun c r => record (.setCursorPosition c r) (a.tui.setCursorPosition c r)
      outputString := fun s => record (.outputString s) (a.tui.outputString s)
      outputStringAt := fun c r s => record (.outputStringAt c r s) (a.tui.outputStringAt c r s)
      readKey := record .readKey a.tui.readKey
      readHex := fun n => record (.readHex n) (a.tui.readHex n)
      getScreenDimensions := record .getScreenDimensions a.tui.getScreenDimensions }
  error := { reportError := fun m s => record (.reportError m s) (a.error.reportError m s) }

/-! ## Properties of the operations -/

/-- The calls `S` of the adapters `a` have the property `Φ`, which is closed
    under composition and holds of a program that never returns: so does every
    program that makes no other calls. -/
structure AdapterManager.Serves (S : AdapterCall → Prop) (Φ : ∀ {α : Type}, Prog W α → Prop)
    (a : AdapterManager W) : Prop where
  closed : Prog.Closed Φ
  hang : ∀ {α : Type}, Φ (Prog.hang : Prog W α)
  init : S .init → Φ a.memory.init
  memRead : ∀ ad w, S (.memRead ad w) → Φ (a.memory.memRead ad w)
  memWrite : ∀ ad w v, S (.memWrite ad w v) → Φ (a.memory.memWrite ad w v)
  getMemoryMapDescriptors : S .getMemoryMapDescriptors → Φ a.memory.getMemoryMapDescriptors
  getMemoryTypeAtAddress : ∀ f ∈ a.memory.getMemoryTypeAtAddress, ∀ ad old,
    S (.getMemoryTypeAtAddress ad) → Φ (f ad old)
  queryAccess : ∀ f ∈ a.memory.queryAccess, ∀ ad l old, S (.queryAccess ad l) → Φ (f ad l old)
  dumpValidRanges : S .dumpValidRanges → Φ a.memory.dumpValidRanges
  clearScreen : S .clearScreen → Φ a.tui.clearScreen
  setAttribute : ∀ n, S (.setAttribute n) → Φ (a.tui.setAttribute n)
  setCursorPosition : ∀ c r, S (.setCursorPosition c r) → Φ (a.tui.setCursorPosition c r)
  outputString : ∀ s, S (.outputString s) → Φ (a.tui.outputString s)
  outputStringAt : ∀ c r s, S (.outputStringAt c r s) → Φ (a.tui.outputStringAt c r s)
  readKey : S .readKey → Φ a.tui.readKey
  readHex : ∀ n, S (.readHex n) → Φ (a.tui.readHex n)
  getScreenDimensions : S .getScreenDimensions → Φ a.tui.getScreenDimensions
  reportError : ∀ m s, S (.reportError m s) → Φ (a.error.reportError m s)

theorem AdapterManager.serves_true (a : AdapterManager W) (S : AdapterCall → Prop) :
    a.Serves S fun _ => True := by
  constructor
  · exact ⟨fun _ => trivial, fun _ _ => trivial⟩
  all_goals intros; trivial

/-- A property of the calls `S` that recording passes on. -/
theorem AdapterManager.Serves.traced {S : AdapterCall → Prop}
    {Φ : ∀ {α : Type}, Prog W α → Prop} {Ψ : ∀ {α : Type}, Prog (W × List AdapterCall) α → Prop}
    {a : AdapterManager W} (ha : a.Serves S Φ) (hΨ : Prog.Closed Ψ)
    (hang : ∀ {α : Type}, Ψ (Prog.hang : Prog _ α))
    (h : ∀ {α : Type} (c : AdapterCall) (m : Prog W α), S c → Φ m → Ψ (record c m)) :
    (traced a).Serves S Ψ where
  closed := hΨ
  hang := hang
  init hc := h _ _ hc (ha.init hc)
  memRead ad w hc := h _ _ hc (ha.memRead ad w hc)
  memWrite ad w v hc := h _ _ hc (ha.memWrite ad w v hc)
  getMemoryMapDescriptors hc := h _ _ hc (ha.getMemoryMapDescriptors hc)
  getMemoryTypeAtAddress f hf ad old hc := by
    obtain ⟨g, hg, rfl⟩ := Option.map_eq_some_iff.1 hf
    exact h _ _ hc (ha.getMemoryTypeAtAddress g hg ad old hc)
  queryAccess f hf ad l old hc := by
    obtain ⟨g, hg, rfl⟩ := Option.map_eq_some_iff.1 hf
    exact h _ _ hc (ha.queryAccess g hg ad l old hc)
  dumpValidRanges hc := h _ _ hc (ha.dumpValidRanges hc)
  clearScreen hc := h _ _ hc (ha.clearScreen hc)
  setAttribute n hc := h _ _ hc (ha.setAttribute n hc)
  setCursorPosition c r hc := h _ _ hc (ha.setCursorPosition c r hc)
  outputString s hc := h _ _ hc (ha.outputString s hc)
  outputStringAt c r s hc := h _ _ hc (ha.outputStringAt c r s hc)
  readKey hc := h _ _ hc (ha.readKey hc)
  readHex n hc := h _ _ hc (ha.readHex n hc)
  getScreenDimensions hc := h _ _ hc (ha.getScreenDimensions hc)
  reportError m s hc := h _ _ hc (ha.reportError m s hc)

end UefiNexus
