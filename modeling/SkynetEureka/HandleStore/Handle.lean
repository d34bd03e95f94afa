import Mathlib

/-!
# The handle store (`skynet_handle.c`)

A context is named by its address. The field `ctx->handle` lives in the context and not in
the store, so every function that reads it takes the map `contextHandle`. All functions here
are the bodies between the lock and the unlock of the source; a failed `assert` and the
dereference of a null pointer are the `Fault`s.
-/

namespace SkynetEureka.HandleStore

/-- The address of a `struct skynet_context`. -/
abbrev Ctx := ℕ

/-- `HANDLE_MASK` -/
def handleMask : ℕ := 0xffffff

/-- `HANDLE_REMOTE_SHIFT` -/
def handleRemoteShift : ℕ := 24

/-- `DEFAULT_SLOT_SIZE` -/
def defaultSlotSize : ℕ := 4

/-- `struct handle_name` -/
structure HandleName where
  name : List UInt8
  handle : ℕ
deriving DecidableEq

/-- `struct handle_storage`. `slot` is read only below `slotSize`. -/
structure HandleStorage where
  harbor : ℕ
  handleIndex : ℕ
  slotSize : ℕ
  slot : ℕ → Option Ctx
  name : List HandleName

/-- The ways in which `skynet_handle_register` ends the process. -/
inductive Fault where
  /-- `assert((s->slot_size*2 - 1) <= HANDLE_MASK)` -/
  | slotSizeLimit
  /-- `skynet_context_handle(NULL)` -/
  | nullContext
  /-- `assert(new_slot[hash] == NULL)` -/
  | newSlotTaken
  /-- the model gave the loop too few rounds (never reached, see `registerLoop_ne_outOfFuel`) -/
  | outOfFuel
deriving DecidableEq

/-- The inner loop of `skynet_handle_register`: the handle whose slot is free, within `n`
tries from `handle` on. -/
def scanSlot (slot : ℕ → Option Ctx) (slotSize : ℕ) : ℕ → ℕ → Option ℕ
  | 0, _ => none
  | n + 1, handle =>
    -- 0 is reserved
    let handle := if handleMask < handle then 1 else handle
    if (slot (handle &&& (slotSize - 1))).isNone then some handle
    else scanSlot slot slotSize n (handle + 1)

/-- One round of the loop that fills `new_slot`. -/
def rehashSlot (contextHandle : Ctx → ℕ) (s : HandleStorage) (newSlot : ℕ → Option Ctx)
    (i : ℕ) : Except Fault (ℕ → Option Ctx) :=
  match s.slot i with
  | none => .error .nullContext
  | some ctx =>
    let hash := contextHandle ctx &&& (s.slotSize * 2 - 1)
    if (newSlot hash).isSome then .error .newSlotTaken
    else .ok (Function.update newSlot hash (some ctx))

/-- The growth code of `skynet_handle_register`. -/
def growSlot (contextHandle : Ctx → ℕ) (s : HandleStorage) : Except Fault HandleStorage :=
  if handleMask < s.slotSize * 2 - 1 then .error .slotSizeLimit
  else
    match (List.range s.slotSize).foldlM (rehashSlot contextHandle s) (fun _ => none) with
    | .error e => .error e
    | .ok newSlot => .ok { s with slot := newSlot, slotSize := s.slotSize * 2 }

/-- The scan at the head of one round of the outer loop. -/
def HandleStorage.scan (s : HandleStorage) : Option ℕ :=
  scanSlot s.slot s.slotSize s.slotSize s.handleIndex

/-- The stores made when the scan has found `handle`. -/
def HandleStorage.put (s : HandleStorage) (ctx : Ctx) (handle : ℕ) : HandleStorage :=
  { s with
    slot := Function.update s.slot (handle &&& (s.slotSize - 1)) (some ctx)
    handleIndex := handle + 1 }

/-- The outer loop of `skynet_handle_register`, at most the given number of rounds. -/
def registerLoop (contextHandle : Ctx → ℕ) (ctx : Ctx) :
    ℕ → HandleStorage → Except Fault (HandleStorage × ℕ)
  | 0, _ => .error .outOfFuel
  | n + 1, s =>
    match s.scan with
    | some handle => .ok (s.put ctx handle, handle ||| s.harbor)
    | none =>
      match growSlot contextHandle s with
      | .error e => .error e
      | .ok s' => registerLoop contextHandle ctx n s'

/-- `skynet_handle_register`: the new store and the handle of `ctx`. The table doubles in each
round that goes on, so 26 rounds are enough to pass the limit on its size. -/
def skynetHandleRegister (contextHandle : Ctx → ℕ) (s : HandleStorage) (ctx : Ctx) :
    Except Fault (HandleStorage × ℕ) :=
  registerLoop contextHandle ctx 26 s

/-- `skynet_handle_retire`: the new store and the context to release, if `handle` was found. -/
def skynetHandleRetire (contextHandle : Ctx → ℕ) (s : HandleStorage) (handle : ℕ) :
    HandleStorage × Option Ctx :=
  let hash := handle &&& (s.slotSize - 1)
  match s.slot hash with
  | none => (s, none)
  | some ctx =>
    if contextHandle ctx = handle then
      ({ s with
          slot := Function.update s.slot hash none
          name := s.name.filter fun n => n.handle ≠ handle }, some ctx)
    else (s, none)

/-- `skynet_handle_grab` -/
def skynetHandleGrab (contextHandle : Ctx → ℕ) (s : HandleStorage) (handle : ℕ) : Option Ctx :=
  match s.slot (handle &&& (s.slotSize - 1)) with
  | none => none
  | some ctx => if contextHandle ctx = handle then some ctx else none

/-- One round of the inner loop of `skynet_handle_retireall`; the second component is `n`. -/
def retireSlot (contextHandle : Ctx → ℕ) (sn : HandleStorage × ℕ) (i : ℕ) :
    HandleStorage × ℕ :=
  let handle := match sn.1.slot i with
    | some ctx => contextHandle ctx
    | none => 0
  if handle ≠ 0 then
    match skynetHandleRetire contextHandle sn.1 handle with
    | (s, some _) => (s, sn.2 + 1)
    | (s, none) => (s, sn.2)
  else sn

/-- One round of the outer loop of `skynet_handle_retireall`. -/
def retirePass (contextHandle : Ctx → ℕ) (s : HandleStorage) : HandleStorage × ℕ :=
  (List.range s.slotSize).foldl (retireSlot contextHandle) (s, 0)

/-- The outer loop of `skynet_handle_retireall`, at most the given number of rounds. -/
def retireallLoop (contextHandle : Ctx → ℕ) : ℕ → HandleStorage → HandleStorage
  | 0, s => s
  | k + 1, s =>
    let (s', n) := retirePass contextHandle s
    if n = 0 then s' else retireallLoop contextHandle k s'

/-- `skynet_handle_retireall`. Each round but the last empties a slot. -/
def skynetHandleRetireall (contextHandle : Ctx → ℕ) (s : HandleStorage) : HandleStorage :=
  retireallLoop contextHandle (s.slotSize + 1) s

/-- `skynet_handle_init`. On an `int`, `harbor & 0xff` is the remainder by 256. -/
def skynetHandleInit (harbor : ℤ) : HandleStorage where
  harbor := (harbor % 256).toNat <<< handleRemoteShift
  handleIndex := 1
  slotSize := defaultSlotSize
  slot := fun _ => none
  name := []

end SkynetEureka.HandleStore
