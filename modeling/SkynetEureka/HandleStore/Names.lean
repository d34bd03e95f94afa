import SkynetEureka.Lib.Cells
import SkynetEureka.HandleStore.Registry

/-!
# The names of handles (`skynet_handle.c`)

The names are kept in an array, apart from the slots. A name is the bytes before its terminator.
What `skynet_malloc` gives is not initialised: the functions that allocate take what is there.
-/

namespace SkynetEureka.HandleStore

open Lib

/-- `MAX_SLOT_SIZE` -/
def maxSlotSize : ℕ := 0x40000000

/-- `strcmp`: the sign of what it returns -/
def strcmp : List UInt8 → List UInt8 → Ordering
  | [], [] => .eq
  | [], _ :: _ => .lt
  | _ :: _, [] => .gt
  | a :: as, b :: bs => if a < b then .lt else if b < a then .gt else strcmp as bs

/-- The fields of `struct handle_storage` for the names -/
structure NameStorage where
  nameCap : ℕ
  nameCount : ℕ
  name : ℕ → HandleName

/-- The names after `skynet_handle_init` -/
def NameStorage.init (fresh : ℕ → HandleName) : NameStorage where
  nameCap := 2
  nameCount := 0
  name := fresh

namespace NameStorage

/-- The cells in use -/
def list (s : NameStorage) : List HandleName := front s.nameCount s.name

/-- The loop that `skynet_handle_findname` and `_insert_name` share. The sum of the two indices is
an `int`, for there are at most `maxSlotSize` names. -/
def search (s : NameStorage) (name : List UInt8) : Position :=
  bisect (fun mid => strcmp (s.name mid).name name) 0 ((s.nameCount : ℤ) - 1)

end NameStorage

/-- `skynet_handle_findname` -/
def skynetHandleFindname (s : NameStorage) (name : List UInt8) : ℕ :=
  match s.search name with
  | .found mid => (s.name mid).handle
  | .before _ => 0

/-- `_insert_name_before`; nothing is returned when the process ends, at the assertion about the
capacity or at an overflow of it. -/
def insertNameBefore (fresh : ℕ → HandleName) (s : NameStorage) (name : List UInt8) (handle : ℕ)
    (before : ℕ) : Option NameStorage :=
  let moved : Option (ℕ × (ℕ → HandleName)) :=
    if s.nameCap ≤ s.nameCount then
      let nameCap := s.nameCap * 2
      if maxSlotSize < nameCap then none
      else
        let n := copyCells s.name 0 (List.range before) fresh
        let n := copyCells s.name 1 (List.range' before (s.nameCount - before)) n
        some (nameCap, n)
    else some (s.nameCap, shiftCells before s.nameCount s.name)
  moved.map fun (nameCap, n) =>
    { nameCap, nameCount := s.nameCount + 1, name := Function.update n before ⟨name, handle⟩ }

/-- `skynet_handle_namehandle`, which is `_insert_name` under the lock: the storage and what is
returned, the name or `NULL` -/
def skynetHandleNamehandle (fresh : ℕ → HandleName) (s : NameStorage) (handle : ℕ)
    (name : List UInt8) : Option (NameStorage × Option (List UInt8)) :=
  match s.search name with
  | .found _ => some (s, none)
  | .before first => (insertNameBefore fresh s name handle first).map fun s => (s, some name)

/-- The part of `skynet_handle_retire` about the names -/
def retireNames (s : NameStorage) (handle : ℕ) : NameStorage :=
  let (name, j) := compactCells (fun n => n.handle ≠ handle) s.nameCount s.name
  { s with name, nameCount := j }

/-! ## Runs -/

/-- A call; `skynet_handle_namehandle` comes with what `skynet_malloc` gives. -/
inductive NameOp where
  | register (c : Ctx)
  | retire (h : ℕ)
  | namehandle (fresh : ℕ → HandleName) (h : ℕ) (name : List UInt8)
  | findname (name : List UInt8)

/-- What calls have done to names: `skynet_handle_retire` was called, and it found the handle or
not; `skynet_handle_namehandle` succeeded. -/
inductive NameEvent where
  | retire (h : ℕ) (found : Bool)
  | named (h : ℕ) (name : List UInt8)

/-- The handle given to a name and not retired since then, by the events, the newest first -/
def given : List NameEvent → List UInt8 → Option ℕ
  | [], _ => none
  | .named h m :: log, name => if m = name then some h else given log name
  | .retire h found :: log, name =>
    if found then (given log name).filter (· ≠ h) else given log name

/-- The same, when every call of `skynet_handle_retire` counts -/
def givenSinceCall : List NameEvent → List UInt8 → Option ℕ
  | [], _ => none
  | .named h m :: log, name => if m = name then some h else givenSinceCall log name
  | .retire h _ :: log, name => (givenSinceCall log name).filter (· ≠ h)

/-- A node with its names -/
structure NamedNode where
  node : Node
  names : NameStorage
  log : List NameEvent

def NamedNode.init (harbor : ℤ) (fresh : ℕ → HandleName) : NamedNode where
  node := Node.init harbor
  names := NameStorage.init fresh
  log := []

/-- `skynet_handle_retire` finds a context under the handle. -/
def NamedNode.Live (n : NamedNode) (h : ℕ) : Prop :=
  (skynetHandleRetire n.node.contextHandle n.node.store h).2.isSome

instance (n : NamedNode) (h : ℕ) : Decidable (n.Live h) := inferInstanceAs (Decidable (_ = true))

/-- One call, unless the process ends -/
def NamedNode.step (n : NamedNode) : NameOp → Option NamedNode
  | .register c => (n.node.step (.register c)).map fun node => { n with node }
  | .retire h => (n.node.step (.retire h)).map fun node =>
    if n.Live h then ⟨node, retireNames n.names h, .retire h true :: n.log⟩
    else ⟨node, n.names, .retire h false :: n.log⟩
  | .namehandle fresh h name => (skynetHandleNamehandle fresh n.names h name).map fun
    | (names, none) => { n with names }
    | (names, some _) => { n with names, log := .named h name :: n.log }
  | .findname _ => some n

end SkynetEureka.HandleStore
