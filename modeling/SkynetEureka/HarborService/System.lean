import SkynetEureka.Lib.Run
import SkynetEureka.HarborService.HarborTheorems

/-!
# Runs of the harbor service

A `System` is the service with what has happened so far: the calls it has made, the messages of
local services that have come in, the first handle of each name, and the harbors whose connection
is lost. `Move` lists what a message can do to the service, and every invariant is derived from
it.
-/

namespace SkynetEureka.HarborService

open Lib Function

/-- Where a message of a local service goes: to a handle, or to a name that has none yet. -/
inductive Destination where
  | handle (destination : ℕ)
  | name (name : Name)
deriving DecidableEq

/-- A message of a local service. -/
structure Arrival where
  source : ℕ
  destination : Destination
  type : ℕ
  session : ℕ
  buffer : List UInt8
deriving DecidableEq

structure System where
  h : Harbor
  /-- the number of messages so far -/
  clock : ℕ
  log : List Effect
  /-- the messages of local services, by stamp -/
  arrivals : ℕ → Option Arrival
  /-- the first handle of a name -/
  resolved : Name → Option ℕ
  /-- the harbors whose connection is closed -/
  lost : ℕ → Bool

/-- What can be received: socket ids are not 0, the handle of a name has a harbor and a number,
neither of them 0, and a harbor id has eight bits. -/
def Message.Valid : Message → Prop
  | .data fd buffer _ => fd ≠ 0 ∧ buffer ≠ []
  | .closed fd => fd ≠ 0
  | .command (.name _) source =>
    source >>> handleRemoteShift ≠ 0 ∧ source &&& handleMask ≠ 0
  | _ => True

instance : (m : Message) → Decidable m.Valid
  | .data fd buffer _ => inferInstanceAs (Decidable (fd ≠ 0 ∧ buffer ≠ []))
  | .closed fd => inferInstanceAs (Decidable (fd ≠ 0))
  | .command (.name _) source => inferInstanceAs
      (Decidable (source >>> handleRemoteShift ≠ 0 ∧ source &&& handleMask ≠ 0))
  | .command (.connect ..) _ | .command (.accept ..) _ | .command .unknown _ =>
    inferInstanceAs (Decidable True)
  | .connected | .warning .. | .otherSocket | .remote .. | .other .. =>
    inferInstanceAs (Decidable True)

/-- A name that `harbor_command` accepts. -/
def ValidName (name : Name) : Prop := name.length ≠ 0 ∧ name.length < globalnameLength

instance (name : Name) : Decidable (ValidName name) :=
  inferInstanceAs (Decidable (name.length ≠ 0 ∧ name.length < globalnameLength))

/-- The message of a local service that comes in. -/
def arrival (h : Harbor) : Message → Option Arrival
  | .remote source destination type session msg =>
    some ⟨source,
      if destination.handle ≠ 0 then .handle destination.handle
      else if (h.map destination.name).value ≠ 0 then .handle (h.map destination.name).value
      else .name destination.name, type, session, msg⟩
  | _ => none

/-- The names and their first handles. -/
def resolve (resolved : Name → Option ℕ) : Message → Name → Option ℕ
  | .command (.name name) source =>
    if ValidName name ∧ resolved name = none then update resolved name (some source) else resolved
  | _ => resolved

/-- The harbor whose socket is closed. -/
def closedId (h : Harbor) : Message → ℕ
  | .closed fd => harborId h fd
  | _ => 0

def System.step (sys : System) (m : Message) : Option System :=
  if m.Valid then
    let (h, es) := mainloop sys.h sys.clock m
    some {
      h := h
      clock := sys.clock + 1
      log := sys.log ++ es
      arrivals := update sys.arrivals sys.clock (arrival sys.h m)
      resolved := resolve sys.resolved m
      lost := fun id => sys.lost id || (h.s id).status = .down ||
        (closedId sys.h m ≠ 0 && closedId sys.h m = id) }
  else none

/-- The harbor `id`, started by the slave service with this handle. -/
def System.init (id slave : ℕ) : System where
  h := harborInit id slave
  clock := 0
  log := []
  arrivals := fun _ => none
  resolved := fun _ => none
  lost := fun _ => false

end SkynetEureka.HarborService
