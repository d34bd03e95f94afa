import SkynetEureka.Lib.Run

/-!
# Shared objects (lua-stm.c)

One writer and any number of readers share an object and its copies. A lock acquisition, a lock
release, a decrement, an increment (with the load of the pointer to what is incremented), a pointer
store and a free is one step each. A step that touches what has been freed, or whose assertion fails,
is a fault.

`completed` and `reads` are not data of the program.
-/

namespace SkynetEureka.Stm

open Lib

variable {Msg : Type}

/-- `struct stm_copy`, and how often it has been freed -/
structure Copy (Msg : Type) where
  reference : ℤ
  msg : Msg
  freed : ℕ

/-- `struct stm_object` with its lock, how often it has been freed, and the copies by number -/
structure Mem (Msg : Type) where
  write : Bool
  read : ℕ
  reference : ℤ
  copy : Option ℕ
  freed : ℕ
  copies : List (Copy Msg)

/-- Where the writer is, in `stm_grab`, in `stm_update` with its new copy, then with the old one, or in
`stm_release`. -/
inductive Writer where
  | idle
  | grabbing
  | grabbed
  | updating (copy : ℕ)
  | writing (copy : ℕ)
  | stored (old : Option ℕ)
  | dropping (old : ℕ)
  | freeing (old : ℕ)
  | releasing
  | released
  | freeingLast (copy : ℕ)
  | clearing
  | cleared
  | unlocking
  | leaving
  | done
  deriving DecidableEq

/-- Where a reader is: in `stm_copy`, in `stm_releasecopy`, or in `stm_releasereader`. `latest` is how
many updates had been completed when it took its copy. -/
inductive Phase where
  | idle
  | reading
  | taken (copy : Option ℕ) (latest : ℕ)
  | comparing (copy : Option ℕ) (latest : ℕ)
  | dropping (copy : ℕ)
  | freeing (copy : ℕ)
  | deleting
  | unlocking
  | leaving
  deriving DecidableEq

/-- `struct boxreader`. `live` says that it still has its reference of the object. -/
structure Reader where
  live : Bool
  lastcopy : Option ℕ
  phase : Phase
  deriving DecidableEq

/-- A successful read: the message, and how many updates had been completed -/
structure Read (Msg : Type) where
  msg : Msg
  latest : ℕ

structure State (Msg : Type) where
  mem : Mem Msg
  writer : Writer
  readers : List Reader
  completed : ℕ
  reads : List (Read Msg)
  fault : Bool

/-! ## Memory -/

namespace Mem

variable (m : Mem Msg)

/-- The copy `c` becomes `copy`. -/
def put (c : ℕ) (copy : Copy Msg) : Mem Msg := { m with copies := m.copies.set c copy }

def rlock : Mem Msg := { m with read := m.read + 1 }

def runlock : Mem Msg := { m with read := m.read - 1 }

/-- A step that touches the object; `none` is a fault. -/
def touch {α : Type} (next : Option α) : Option α := if m.freed = 0 then next else none

/-- A step that touches a copy -/
def touchCopy {α : Type} (c : ℕ) (next : Copy Msg → Option α) : Option α := do
  let copy ← m.copies[c]?
  if copy.freed = 0 then next copy else none

/-- `ATOM_DEC` of the reference of a copy -/
def decCopy (c : ℕ) : Option (Mem Msg × ℤ) :=
  m.touchCopy c fun copy =>
    some (m.put c { copy with reference := copy.reference - 1 }, copy.reference - 1)

/-- `ATOM_FINC` of the reference of a copy, and the assertion -/
def incCopy (c : ℕ) : Option (Mem Msg) :=
  m.touchCopy c fun copy =>
    if 0 < copy.reference then some (m.put c { copy with reference := copy.reference + 1 })
    else none

def freeCopy (c : ℕ) : Option (Mem Msg) :=
  m.touchCopy c fun copy => some (m.put c { copy with freed := copy.freed + 1 })

/-- `skynet_free(obj)` -/
def free : Option (Mem Msg) := m.touch (some { m with freed := m.freed + 1 })

end Mem

/-- `stm_new` -/
def State.init (msg : Msg) : State Msg where
  mem := ⟨false, 0, 1, some 0, 0, [⟨1, msg, 0⟩]⟩
  writer := .idle
  readers := []
  completed := 1
  reads := []
  fault := false

/-! ## The writer -/

/-- After the decrement of a copy: it is freed when its reference is 0. -/
def afterDrop (c : ℕ) (reference : ℤ) : Writer := if reference = 0 then .freeing c else .idle

namespace State

variable (s : State Msg)

/-- The next step of the writer. `some none` is a fault, and `none` a lock that has to be waited for. -/
def writerStep : Writer → Option (Option (State Msg))
  | .idle | .done => none
  | .grabbing => some <| s.mem.touch <|
    -- assert(ref > 0)
    if 0 < s.mem.reference then
      some { s with
        mem := { s.mem with reference := s.mem.reference + 1 }
        readers := s.readers ++ [⟨true, none, .idle⟩]
        writer := .grabbed }
    else none
  | .grabbed => some <| s.mem.touch <| some { s with mem := s.mem.runlock, writer := .idle }
  | .updating c =>
    if s.mem.write = false ∧ s.mem.read = 0 then
      some <| s.mem.touch <|
        some { s with mem := { s.mem with write := true }, writer := .writing c }
    else none
  | .writing c => some <| s.mem.touch <|
    some { s with mem := { s.mem with copy := some c }, writer := .stored s.mem.copy }
  | .stored old => some <| s.mem.touch <|
    some { s with
      mem := { s.mem with write := false }
      completed := s.completed + 1
      writer := old.elim .idle .dropping }
  | .dropping c => some do
    let (mem, reference) ← s.mem.decCopy c
    some { s with mem := mem, writer := afterDrop c reference }
  | .freeing c => some do
    let mem ← s.mem.freeCopy c
    some { s with mem := mem, writer := .idle }
  | .releasing =>
    if s.mem.write = false ∧ s.mem.read = 0 then
      some <| s.mem.touch <| some { s with mem := { s.mem with write := true }, writer := .released }
    else none
  | .released => some <| s.mem.touch <|
    match s.mem.copy with
    | none => some { s with writer := .clearing }
    | some c => do
      let (mem, reference) ← s.mem.decCopy c
      some { s with
        mem := mem, writer := if reference = 0 then .freeingLast c else .clearing }
  | .freeingLast c => some do
    let mem ← s.mem.freeCopy c
    some { s with mem := mem, writer := .clearing }
  | .clearing => some <| s.mem.touch <|
    some { s with mem := { s.mem with copy := none }, writer := .cleared }
  | .cleared => some <| s.mem.touch <|
    some { s with
      mem := { s.mem with reference := s.mem.reference - 1 }
      writer := if 0 < s.mem.reference - 1 then .unlocking else .leaving }
  | .unlocking => some <| s.mem.touch <|
    some { s with mem := { s.mem with write := false }, writer := .done }
  | .leaving => some do
    let mem ← s.mem.free
    some { s with mem := mem, writer := .done }

/-! ## A reader -/

/-- The reader `i` becomes `r`. -/
def put (i : ℕ) (r : Reader) (mem : Mem Msg) : State Msg :=
  { s with mem := mem, readers := s.readers.set i r }

/-- The end of `ldeletereader`: the copy is released. -/
def leave (r : Reader) : Reader :=
  ⟨r.live, none, r.lastcopy.elim .idle .dropping⟩

/-- The next step of the reader `i` -/
def readerStep (i : ℕ) (r : Reader) : Option (Option (State Msg)) :=
  match r.phase with
  | .idle => none
  | .reading => some <| s.mem.touch <|
    match s.mem.copy with
    | none => some (s.put i { r with phase := .taken none s.completed } s.mem)
    | some c => do
      let mem ← s.mem.incCopy c
      some (s.put i { r with phase := .taken (some c) s.completed } mem)
  | .taken copy latest => some <| s.mem.touch <|
    some (s.put i { r with phase := .comparing copy latest } s.mem.runlock)
  | .comparing copy latest => some <|
    -- not updated
    if copy = r.lastcopy then
      some (s.put i { r with phase := copy.elim .idle .dropping } s.mem)
    else
      let next := s.put i ⟨r.live, copy, r.lastcopy.elim .idle .dropping⟩ s.mem
      match copy with
      | none => some next
      | some c => s.mem.touchCopy c fun copy =>
        some { next with reads := s.reads ++ [⟨copy.msg, latest⟩] }
  | .dropping c => some do
    let (mem, reference) ← s.mem.decCopy c
    some (s.put i { r with phase := if reference = 0 then .freeing c else .idle } mem)
  | .freeing c => some do
    let mem ← s.mem.freeCopy c
    some (s.put i { r with phase := .idle } mem)
  | .deleting => some <| s.mem.touch <|
    some (s.put i
      { r with
        live := false
        phase := if s.mem.reference - 1 = 0 then .leaving else .unlocking }
      { s.mem with reference := s.mem.reference - 1 })
  | .unlocking => some <| s.mem.touch <| some (s.put i (leave r) s.mem.runlock)
  | .leaving => some <|
    -- assert(obj->copy == NULL)
    if s.mem.copy = none then do
      let mem ← s.mem.free
      some (s.put i (leave r) mem)
    else none

end State

/-- A step: the beginning of one of the functions, or the next step of the writer or of a reader. -/
inductive Action (Msg : Type) where
  | grab
  | update (msg : Msg)
  | release
  | read (i : ℕ)
  | delete (i : ℕ)
  | writer
  | reader (i : ℕ)

namespace State

/-- What has come out of a step; nothing is done after a fault. -/
def settle (s : State Msg) : Option (State Msg) → State Msg
  | none => { s with fault := true }
  | some s' => s'

/-- The beginning of `stm_copy` and of `stm_releasereader` -/
def enter (s : State Msg) (i : ℕ) (phase : Phase) : Option (State Msg) := do
  let r ← s.readers[i]?
  if r.phase = .idle ∧ r.live = true ∧ s.mem.write = false then
    some (s.settle (s.mem.touch (some (s.put i { r with phase := phase } s.mem.rlock))))
  else none

def step (s : State Msg) (a : Action Msg) : Option (State Msg) :=
  if s.fault then none
  else
    match a with
    | .grab =>
      if s.writer = .idle ∧ s.mem.write = false then
        some (s.settle (s.mem.touch (some { s with mem := s.mem.rlock, writer := .grabbing })))
      else none
    | .update msg =>
      if s.writer = .idle then
        some { s with
          mem := { s.mem with copies := s.mem.copies ++ [⟨1, msg, 0⟩] }
          writer := .updating s.mem.copies.length }
      else none
    | .release =>
      if s.writer = .idle then
        -- assert(obj->copy)
        some (s.settle (s.mem.touch
          (if s.mem.copy.isSome then some { s with writer := .releasing } else none)))
      else none
    | .read i => s.enter i .reading
    | .delete i => s.enter i .deleting
    | .writer => (s.writerStep s.writer).map s.settle
    | .reader i => do
      let r ← s.readers[i]?
      let next ← s.readerStep i r
      some (s.settle next)

end State

end SkynetEureka.Stm
