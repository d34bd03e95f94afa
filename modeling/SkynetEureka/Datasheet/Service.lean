import SkynetEureka.Lib.Run

/-!
# Versions of a datasheet (builder.lua, datasheet/init.lua)

A builder makes the versions of a sheet, customers use them, and a service counts the references.
Messages between two services arrive in order.

A version is the pointer of a string that no other version has, and is numbered here. A request that
raises an error answers with it, if somebody waits for the answer, and changes nothing.

`collected` is not data of the program.
-/

namespace SkynetEureka.Datasheet

open Function

/-- `handles[handle]`; `collect` tells that a response is kept in it. -/
structure Handle where
  ref : ℤ
  collect : Bool
  deriving DecidableEq

/-- The requests to the service -/
inductive Request where
  | update (handle : ℕ)
  | query
  | monitor (handle : ℕ)
  | release (handle : ℕ)
  | collect (handle : ℕ)
  deriving DecidableEq

/-- An answer to the builder. `ok` is false when the service has raised an error. -/
inductive Answer where
  | updated (handle : ℕ) (ok : Bool)
  | collected (handle : ℕ)
  deriving DecidableEq

/-- The builder and one name of its `dataset`. `calls` are the calls of `builder.new` and
`builder.update` that wait for the service, with the last version that they have read, and `forks` the
coroutines that are to collect a version. -/
structure Builder where
  dataset : Option ℕ
  cache : List ℕ
  calls : List (Option ℕ × ℕ)
  forks : List ℕ
  next : ℕ
  sent : List Request
  answers : List Answer

/-- Where a customer is: `sheets[name]` has no handle while it queries or when this has failed; then
a coroutine starts to monitor the handle. It stops when an error is raised. -/
inductive Phase where
  | querying
  | failed
  | started (handle : ℕ)
  | monitoring (handle : ℕ)
  | stopped (handle : ℕ)
  deriving DecidableEq

/-- A customer, its requests, and the answers to them; `none` is an error. -/
structure Customer where
  phase : Phase
  sent : List Request
  answers : List (Option ℕ)
  deriving DecidableEq

/-- A name: what the service has in `dataset` and `handles`, the builder, and the customers -/
structure Sheet where
  handle : Option ℕ
  handles : ℕ → Option Handle
  monitors : List ℕ
  builder : Builder
  customers : List Customer
  collected : List ℕ

def Sheet.init : Sheet where
  handle := none
  handles _ := none
  monitors := []
  builder := ⟨none, [], [], [], 0, [], []⟩
  customers := []
  collected := []

namespace Sheet

variable (s : Sheet)

/-! ## The service -/

def answer (a : Answer) : Sheet :=
  { s with builder := { s.builder with answers := s.builder.answers ++ [a] } }

def put (k : ℕ) (c : Customer) : Sheet := { s with customers := s.customers.set k c }

def reply (k : ℕ) (handle : Option ℕ) : Sheet :=
  { s with customers := s.customers.modify k fun c => { c with answers := c.answers ++ [handle] } }

/-- A version is collected. -/
def forget (handle : ℕ) : Sheet :=
  { s with
    handles := update s.handles handle none
    collected := s.collected ++ [handle] }.answer (.collected handle)

/-- `releasehandle`; the builder has no monitor. -/
def releasehandle (source : Option ℕ) (handle : ℕ) : Sheet :=
  match s.handles handle with
  | none => s
  | some h =>
    let s :=
      if h.ref - 1 = 0 ∧ h.collect = true then s.forget handle
      else { s with handles := update s.handles handle (some { h with ref := h.ref - 1 }) }
    { s with monitors := s.monitors.filter fun k => some k ≠ source }

/-- `datasheet.update` -/
def update (handle : ℕ) : Sheet :=
  match s.handle with
  | none =>
    -- new datasheet
    { s with
      handle := some handle
      handles := Function.update s.handles handle (some ⟨1, false⟩) }.answer (.updated handle true)
  | some old =>
    match s.handles old with
    | none => s.answer (.updated handle false)
    | some h =>
      -- report update to customers
      { s with
        handle := some handle
        handles := Function.update s.handles handle (some ⟨h.ref, false⟩)
        monitors := []
        customers := s.customers.mapIdx fun k (c : Customer) =>
          if k ∈ s.monitors then { c with answers := c.answers ++ [some handle] } else c }.answer
        (.updated handle true)

/-- `datasheet.query` -/
def query (k : ℕ) : Sheet :=
  match s.handle with
  | none => s.reply k none
  | some handle =>
    match s.handles handle with
    | none => s.reply k none
    | some h =>
      { s with handles := Function.update s.handles handle (some { h with ref := h.ref + 1 }) }.reply k
        (some handle)

/-- `datasheet.monitor` -/
def monitor (k handle : ℕ) : Sheet :=
  match s.handles handle with
  | none => s.reply k none
  | some _ =>
    if s.handle ≠ some handle then
      -- already changes
      s.reply k s.handle
    else if k ∈ s.monitors then s.reply k none
    else { s with monitors := s.monitors ++ [k] }

/-- `datasheet.collect` -/
def collect (handle : ℕ) : Sheet :=
  match s.handles handle with
  | none => s
  | some h =>
    if h.ref = 0 then s.forget handle
    else if h.collect then s
    else { s with handles := Function.update s.handles handle (some { h with collect := true }) }

/-- A request of the builder (`none`) or of a customer -/
def dispatch : Option ℕ → Request → Sheet
  | none, .update handle => s.update handle
  | none, .collect handle => s.collect handle
  | some k, .query => s.query k
  | some k, .monitor handle => s.monitor k handle
  | source, .release handle => s.releasehandle source handle
  | _, _ => s

/-! ## The builder -/

/-- The first half of `builder.new` or of `builder.update`, up to the call of the service -/
def make (last : Option ℕ) : Sheet :=
  let b := s.builder
  { s with builder := { b with
    calls := b.calls ++ [(last, b.next)]
    next := b.next + 1
    sent := b.sent ++ [.update b.next] } }

/-- The second half: the last version is released. -/
def made (last : Option ℕ) (handle : ℕ) : Sheet :=
  let b := { s.builder with
    calls := s.builder.calls.erase (last, handle)
    cache := s.builder.cache ++ [handle] }
  match last with
  | none => { s with builder := { b with dataset := some handle, forks := b.forks ++ [handle] } }
  | some lp =>
    -- assert(cache[lastversion])
    if lp ∈ b.cache then
      { s with builder := { b with
        sent := b.sent ++ [.release lp]
        dataset := some handle
        forks := b.forks ++ [handle] } }
    else { s with builder := b }

/-- The builder gets an answer. -/
def built : Answer → Sheet
  | .updated handle ok =>
    match s.builder.calls.find? fun call => call.2 = handle with
    | none => s
    | some (last, _) =>
      if ok then s.made last handle
      else { s with builder := { s.builder with calls := s.builder.calls.erase (last, handle) } }
  | .collected handle =>
    { s with builder := { s.builder with cache := s.builder.cache.erase handle } }

end Sheet

/-! ## A customer -/

/-- A customer gets an answer. It updates its object, releases the old version, and monitors the new
one. -/
def Customer.resume (c : Customer) (handle : Option ℕ) : Customer :=
  match c.phase, handle with
  | .querying, some v => { c with phase := .started v }
  | .querying, none => { c with phase := .failed }
  | .monitoring v, some v' =>
    { c with phase := .monitoring v', sent := c.sent ++ [.release v, .monitor v'] }
  | .monitoring v, none => { c with phase := .stopped v }
  | _, _ => c

/-! ## Steps -/

inductive Action where
  /-- `builder.new` and `builder.update` are called -/
  | new
  | update
  /-- a coroutine of the builder asks to collect a version -/
  | fork (handle : ℕ)
  /-- the service handles a request of the builder, and the builder an answer -/
  | serveBuilder
  | built
  /-- a service queries the sheet, and then monitors it -/
  | query
  | start (k : ℕ)
  /-- the service handles a request of a customer, and the customer an answer -/
  | serve (k : ℕ)
  | resume (k : ℕ)

namespace Sheet

def step (s : Sheet) : Action → Option Sheet
  | .new => if s.builder.dataset = none then some (s.make none) else none
  | .update => do
    let last ← s.builder.dataset
    some (s.make (some last))
  | .fork handle =>
    if handle ∈ s.builder.forks then
      some { s with builder := { s.builder with
        forks := s.builder.forks.erase handle
        sent := s.builder.sent ++ [.collect handle] } }
    else none
  | .serveBuilder =>
    match s.builder.sent with
    | [] => none
    | request :: rest =>
      some ({ s with builder := { s.builder with sent := rest } }.dispatch none request)
  | .built =>
    match s.builder.answers with
    | [] => none
    | a :: rest => some ({ s with builder := { s.builder with answers := rest } }.built a)
  | .query => some { s with customers := s.customers ++ [⟨.querying, [.query], []⟩] }
  | .start k => do
    let c ← s.customers[k]?
    match c.phase with
    | .started v =>
      some (s.put k { c with phase := .monitoring v, sent := c.sent ++ [.monitor v] })
    | _ => none
  | .serve k => do
    let c ← s.customers[k]?
    match c.sent with
    | [] => none
    | request :: rest =>
      some ((s.put k { c with sent := rest }).dispatch (some k) request)
  | .resume k => do
    let c ← s.customers[k]?
    match c.answers with
    | [] => none
    | handle :: rest =>
      some (s.put k ({ c with answers := rest }.resume handle))

end Sheet

/-- All sheets, by their names -/
abbrev State := ℕ → Sheet

def step (s : State) (a : ℕ × Action) : Option State :=
  ((s a.1).step a.2).map fun sheet => update s a.1 sheet

end SkynetEureka.Datasheet
