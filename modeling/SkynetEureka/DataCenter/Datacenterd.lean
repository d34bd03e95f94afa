import SkynetEureka.Lib.Run

/-!
# The data center (datacenterd.lua)

A tree of tables, and a second one with the requests that wait for a value. A request is handled at
once; one that raises an error changes nothing.
-/

namespace SkynetEureka.DataCenter

open Lib Function

/-! ## Values -/

/-- A key of a table. -/
inductive Key where
  | string (s : String)
  | number (n : ℤ)
  | boolean (b : Bool)
deriving DecidableEq

/-- A value that is not `nil`. A table that comes in a message is like no other. -/
inductive Value where
  | key (k : Key)
  | table (entries : Key → Option Value)

/-- The value counts as true. -/
def Value.isTrue : Value → Bool
  | .key (.boolean b) => b
  | _ => true

/-- The names in the metatable of strings. -/
def stringLibrary : List String :=
  ["byte", "char", "dump", "find", "format", "gmatch", "gsub", "len", "lower", "match", "pack",
    "packsize", "rep", "reverse", "sub", "unpack", "upper"]

/-- `db[key]`; `none` when it raises an error. What a string has under the name of a function can
neither be indexed nor sent. -/
def index : Option Value → Key → Option (Option Value)
  | some (.table entries), key => some (entries key)
  | some (.key (.string _)), .string name => if name ∈ stringLibrary then none else some none
  | some (.key (.string _)), _ => some none
  | _, _ => none

/-- `query` -/
def query : Option Value → List Key → Option (Option Value)
  | db, [] => some db
  | db, key :: path => (index db key).bind fun db => query db path

/-- `update`: the table, and the value that was there. -/
def update : (Key → Option Value) → List Key → Option Value →
    Option ((Key → Option Value) × Option Value)
  | _, [], _ => none
  | db, [key], value => some (Function.update db key value, db key)
  | db, key :: key' :: path, value =>
    let enter (entries : Key → Option Value) :=
      (update entries (key' :: path) value).map fun (entries, ret) =>
        (Function.update db key (some (.table entries)), ret)
    match db key with
    | none => enter fun _ => none
    | some (.table entries) => enter entries
    | some (.key _) => none

/-! ## Waiters -/

/-- A node of `wait_queue`; a response is the number of those before it. -/
inductive Waits where
  | queue (responses : List ℕ)
  | branch (entries : Key → Option Waits)

/-- What `wakeup` does. -/
inductive Woken where
  | nothing
  /-- it returns the queue -/
  | wake (responses : List ℕ)
  /-- "can't wake up a branch" -/
  | fail (responses : List ℕ)

/-- `wakeup`; the last argument is the new value. -/
def wakeup : (Key → Option Waits) → List Value → (Key → Option Waits) × Woken
  | db, [] => (db, .nothing)
  | db, .table _ :: _ => (db, .nothing)
  | db, .key key :: rest =>
    match db key with
    | none => (db, .nothing)
    | some (.queue responses) =>
      (Function.update db key none,
        if rest.length = 1 then .wake responses else .fail responses)
    | some (.branch entries) =>
      let (entries, woken) := wakeup entries rest
      (Function.update db key (some (.branch entries)), woken)

/-- `waitfor`; `none` when an assertion fails. -/
def waitfor (response : ℕ) : (Key → Option Waits) → List Key → Option (Key → Option Waits)
  | _, [] => none
  | db, [key] =>
    match db key with
    | none => some (Function.update db key (some (.queue [response])))
    | some (.queue responses) =>
      some (Function.update db key (some (.queue (responses ++ [response]))))
    | some (.branch _) => none
  | db, key :: key' :: path =>
    let enter (entries : Key → Option Waits) :=
      (waitfor response entries (key' :: path)).map fun entries =>
        Function.update db key (some (.branch entries))
    match db key with
    | none => enter fun _ => none
    | some (.branch entries) => enter entries
    | some (.queue _) => none

/-! ## The service -/

/-- What a request that has waited gets. -/
inductive Answer where
  | value (v : Value)
  /-- an error -/
  | failed

/-- The tables, and of the requests that have waited the paths and the answers. -/
structure Datacenter where
  database : Key → Option Value
  waitQueue : Key → Option Waits
  waits : List (List Key)
  answers : List (ℕ × Answer)

/-- A request; its path has a key. -/
inductive Request where
  | query (key : Key) (path : List Key)
  | update (key : Key) (path : List Key) (value : Option Value)
  | wait (key : Key) (path : List Key)

/-- What the sender of a request gets at once. -/
inductive Reply where
  | ret (v : Option Value)
  | error
  /-- nothing -/
  | later

/-- `command.QUERY` -/
def Datacenter.query (s : Datacenter) (key : Key) (path : List Key) : Option (Option Value) :=
  match s.database key with
  | some d => if d.isTrue then DataCenter.query (some d) path else some none
  | none => some none

/-- `command.UPDATE` -/
def Datacenter.update (s : Datacenter) (path : List Key) (value : Option Value) :
    Datacenter × Reply :=
  match DataCenter.update s.database path value with
  | none => (s, .error)
  | some (database, ret) =>
    let s : Datacenter := { s with database := database }
    match value with
    | none => (s, .ret ret)
    | some v =>
      if ret.any Value.isTrue then (s, .ret ret)
      else
        let (waitQueue, woken) := wakeup s.waitQueue (path.map .key ++ [v])
        let s : Datacenter := { s with waitQueue := waitQueue }
        match woken with
        | .nothing => (s, .ret none)
        | .wake responses =>
          ({ s with answers := s.answers ++ responses.map fun r => (r, .value v) }, .ret none)
        | .fail responses =>
          ({ s with answers := s.answers ++ responses.map fun r => (r, .failed) }, .ret none)

/-- A request "WAIT". -/
def Datacenter.wait (s : Datacenter) (key : Key) (path : List Key) : Datacenter × Reply :=
  match s.query key path with
  | none => (s, .error)
  | some ret =>
    if ret.any Value.isTrue then (s, .ret ret)
    else
      match waitfor s.waits.length s.waitQueue (key :: path) with
      | none => (s, .error)
      | some waitQueue =>
        ({ s with waitQueue := waitQueue, waits := s.waits ++ [key :: path] }, .later)

/-- A request is handled. -/
def Datacenter.handle (s : Datacenter) : Request → Datacenter × Reply
  | .query key path => (s, (s.query key path).elim .error .ret)
  | .update key path value => s.update (key :: path) value
  | .wait key path => s.wait key path

def Datacenter.step (s : Datacenter) (a : Request) : Option Datacenter := some (s.handle a).1

def Datacenter.start : Datacenter := ⟨fun _ => none, fun _ => none, [], []⟩

end SkynetEureka.DataCenter
