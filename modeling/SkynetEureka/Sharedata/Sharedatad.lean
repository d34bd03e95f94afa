import Mathlib

/-!
# Shared configuration objects (sharedatad.lua)

The service has an object for each name and counts its references. An object is numbered when it is
made. A command that raises an error keeps what it has changed until then.
-/

namespace SkynetEureka.Sharedata

open Function

/-- `pool[name]`: the object and `watch`, the responses that wait for the next one -/
structure Entry where
  obj : ℕ
  watch : List ℕ
deriving DecidableEq

/-- `pool_count[name]` -/
structure Count where
  n : ℕ
  threshold : ℕ
deriving DecidableEq

/-- `objmap[obj]`: its entry, or `true` when it is to be collected -/
inductive Mark where
  | used
  | retired
deriving DecidableEq

/-- The value that a command gets: a table that `sharedata.host.new` takes or not, or a chunk, which
may not load, may raise an error, and may give such a table. -/
inductive Data where
  | table (accepted : Bool)
  | chunk (loads : Bool) (runs : Bool) (accepted : Bool)
  | nil
  | other
deriving DecidableEq

/-- Whether `CMD.new` comes to its end -/
def Data.builds : Data → Bool
  | .table accepted => accepted
  | .chunk loads runs accepted => loads && runs && accepted
  | .nil => true
  | .other => false

/-- The variables of the service, the counts and flags of the objects, how many there have been, and
the responses that have been given, each with the object or without one. -/
structure State where
  pool : String → Option Entry
  poolCount : String → Option Count
  objmap : ℕ → Option Mark
  collectTick : ℤ
  ref : ℕ → ℤ
  dirty : ℕ → Bool
  next : ℕ
  given : List (ℕ × Option ℕ)

namespace State

variable (s : State)

/-- `sharedata.host.incref` and `sharedata.host.decref` -/
def incref (obj : ℕ) : State := { s with ref := update s.ref obj (s.ref obj + 1) }

def decref (obj : ℕ) : State := { s with ref := update s.ref obj (s.ref obj - 1) }

/-- `newobj`, for a table that is accepted -/
def newobj (name : String) : State :=
  { s with
    ref := update s.ref s.next 1
    objmap := update s.objmap s.next (some .used)
    pool := update s.pool name (some ⟨s.next, []⟩)
    poolCount := update s.poolCount name (some ⟨0, 16⟩)
    next := s.next + 1 }

/-- `CMD.new`; the second component tells that it has ended without an error. -/
def new (name : String) (t : Data) : State × Bool :=
  -- the value is built before `newobj` asserts that there is none
  if t.builds = true ∧ s.pool name = none then (s.newobj name, true) else (s, false)

/-- The old entry is taken out of the tables. -/
def retire (name : String) (v : Entry) : State :=
  { (s.decref v.obj) with
    objmap := update s.objmap v.obj (some .retired)
    pool := update s.pool name none
    poolCount := update s.poolCount name none }

/-- `response(true, obj)` for all that wait -/
def respond (watch : List ℕ) (obj : Option ℕ) : State :=
  { s with given := s.given ++ watch.map fun response => (response, obj) }

/-- `collect1min` -/
def collect1min : State := if s.collectTick > 1 then { s with collectTick := 1 } else s

/-- `CMD.update` -/
def update (name : String) (t : Data) : State × Bool :=
  match s.pool name with
  | none =>
    let (s, ok) := s.new name t
    if ok then (s.collect1min, true) else (s, false)
  | some v =>
    let (s, ok) := (s.retire name v).new name t
    if ok then
      let obj := (s.pool name).map Entry.obj
      (({ s with dirty := Function.update s.dirty v.obj true }.respond v.watch obj).collect1min, true)
    else (s, false)

/-- `CMD.delete`; nothing happens when there is none. -/
def delete (name : String) : State :=
  match s.pool name with
  | none => s
  | some v => (s.retire name v).respond v.watch none

/-- `CMD.query`: the object that is answered -/
def query (name : String) : State × Option ℕ :=
  match s.pool name with
  | none => (s, none)
  | some v => (s.incref v.obj, some v.obj)

/-- `CMD.confirm` -/
def confirm (obj : ℕ) : State := if (s.objmap obj).isSome then s.decref obj else s

/-- `CMD.monitor`: the object that is answered at once. The responses in `dead` fail the test of
`check_watch`. -/
def monitor (name : String) (obj : ℕ) (response : ℕ) (dead : ℕ → Bool) : State × Option ℕ :=
  match s.pool name, s.poolCount name with
  | some v, some count =>
    if obj ≠ v.obj then (s, some v.obj)
    else
      let n := count.n + 1
      if n > count.threshold then
        let watch := v.watch.filter fun response => !dead response
        let n := n - (v.watch.length - watch.length)
        ({ s with
          pool := Function.update s.pool name (some ⟨v.obj, watch ++ [response]⟩)
          poolCount := Function.update s.poolCount name (some ⟨n, n * 2⟩) }, none)
      else
        ({ s with
          pool := Function.update s.pool name (some ⟨v.obj, v.watch ++ [response]⟩)
          poolCount := Function.update s.poolCount name (some ⟨n, count.threshold⟩) }, none)
  | _, _ => (s, none)

/-- The service has started. -/
def init : State where
  pool _ := none
  poolCount _ := none
  objmap _ := none
  collectTick := 10
  ref _ := 0
  dirty _ := false
  next := 0
  given := []

end State

/-! ## An update that fails -/

variable {s : State} {name : String} {t : Data}

end SkynetEureka.Sharedata
