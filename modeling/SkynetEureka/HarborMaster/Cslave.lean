import SkynetEureka.HarborMaster.Cmaster

/-!
# The names of a slave (`cslave.lua`)

The tables `globalname` and `queryname`, and what is done with them for the master, for the harbor
service and for the services of the slave. `ready` says that `connect_queue` is nil. The
connections between the slaves (`connect_queue`, `slaves`, `monitor`) are left out: no name depends
on them. A function returns the slave, what it has written to the master, and its other calls.
-/

namespace SkynetEureka.HarborMaster

open Function

structure Slave where
  globalname : AList fun _ : Name => ℕ
  /-- the sessions that wait for the name -/
  queryname : Name → Option (List ℕ)
  ready : Bool

/-- The calls of a slave, apart from those to the socket of the master. -/
inductive Output where
  /-- `skynet.redirect` of "N name" to the harbor service -/
  | redirect (name : Name) (address : ℕ)
  /-- the answer to a query -/
  | answer (session : ℕ) (address : Option ℕ)
  /-- the answer of `skynet.localname` -/
  | localname (session : ℕ) (name : Name)
  | error
deriving DecidableEq

/-- `response_name` -/
def responseName (s : Slave) (name : Name) : Slave × List Output :=
  match s.queryname name with
  | some tmp =>
    ({ s with queryname := update s.queryname name none },
      tmp.map fun session => .answer session (s.globalname.lookup name))
  | none => (s, [])

/-- The loop of `monitor_master`, for the package that is read -/
def monitorMaster (s : Slave) : Report → Slave × List Output
  | .name idName address =>
    let s := { s with globalname := s.globalname.insert idName address }
    ((responseName s idName).1,
      (responseName s idName).2 ++ if s.ready then [.redirect idName address] else [])
  | .wait _ | .connect .. | .disconnect _ => (s, [])

/-- `ready` -/
def ready (s : Slave) : Slave × List Output :=
  ({ s with ready := true }, s.globalname.entries.map fun e => .redirect e.1 e.2)

/-- `harbor.REGISTER` -/
def register (s : Slave) (name : Name) (handle : ℕ) : Slave × List Request × List Output :=
  if (s.globalname.lookup name).isSome then (s, [], [.error])
  else
    let s := { s with globalname := s.globalname.insert name handle }
    match packPackage Request.values (.register name handle) with
    | none => ((responseName s name).1, [], (responseName s name).2 ++ [.error])
    | some message =>
      ((responseName s name).1, [message], (responseName s name).2 ++ [.redirect name handle])

/-- `harbor.QUERYNAME` -/
def queryName (s : Slave) (session : ℕ) (name : Name) : Slave × List Request × List Output :=
  if name.head? = some 46 then (s, [], [.localname session name])
  else
    match s.globalname.lookup name with
    | some result => (s, [], [.answer session (some result)])
    | none =>
      match s.queryname name with
      | none =>
        match packPackage Request.values (.query name) with
        | none => (s, [], [.error])
        | some message =>
          ({ s with queryname := update s.queryname name (some [session]) }, [message], [])
      | some queue =>
        ({ s with queryname := update s.queryname name (some (queue ++ [session])) }, [], [])

/-- The branch 'Q' of `monitor_harbor` -/
def monitorHarbor (s : Slave) (name : Name) : Slave × List Request × List Output :=
  match s.globalname.lookup name with
  | some address => (s, [], [.redirect name address])
  | none =>
    match packPackage Request.values (.query name) with
    | none => (s, [], [.error])
    | some message => (s, [message], [])

/-- A slave at its start. -/
def Slave.init : Slave where
  globalname := ∅
  queryname := fun _ => none
  ready := false

/-! ## What the functions do to the names -/

variable {s : Slave} {name name' : Name} {address : ℕ}

@[simp] theorem responseName_globalname (s : Slave) (name : Name) :
    (responseName s name).1.globalname = s.globalname := by
  unfold responseName
  split
  · rfl
  · rfl

/-- What a slave knows after a name of the master. -/
theorem monitorMaster_name (s : Slave) (name : Name) (address : ℕ) :
    (monitorMaster s (.name name address)).1.globalname = s.globalname.insert name address :=
  responseName_globalname _ _

/-- Any other package of the master changes no name. -/
theorem monitorMaster_other {p : Report} (hp : ∀ name address, p ≠ .name name address) :
    (monitorMaster s p).1 = s := by
  cases p with
  | name name address => exact absurd rfl (hp name address)
  | wait => rfl
  | connect => rfl
  | disconnect => rfl

/-- A name that a slave knows after a registration was known, or its package is written. -/
theorem register_known {handle : ℕ}
    (hfits : s.globalname.lookup name = none →
      (packPackage Request.values (.register name handle)).isSome)
    (hknown : (register s name handle).1.globalname.lookup name' = some address) :
    s.globalname.lookup name' = some address ∨
      .register name' address ∈ (register s name handle).2.1 := by
  unfold register at *
  by_cases hsome : (s.globalname.lookup name).isSome
  · rw [if_pos hsome] at hknown
    exact .inl hknown
  · rw [if_neg hsome] at hknown ⊢
    rw [Option.not_isSome_iff_eq_none] at hsome
    obtain ⟨message, hpack⟩ := Option.isSome_iff_exists.mp (hfits hsome)
    simp only [hpack, responseName_globalname] at hknown ⊢
    by_cases heq : name' = name
    · rw [heq, AList.lookup_insert] at hknown
      rw [packPackage_eq_some hpack, heq, Option.some.inj hknown]
      exact .inr (List.mem_singleton_self _)
    · rw [AList.lookup_insert_ne heq] at hknown
      exact .inl hknown

@[simp] theorem queryName_globalname (s : Slave) (session : ℕ) (name : Name) :
    (queryName s session name).1.globalname = s.globalname := by
  unfold queryName
  split
  · rfl
  · split
    · rfl
    · split
      · split
        · rfl
        · rfl
      · rfl

@[simp] theorem monitorHarbor_globalname (s : Slave) (name : Name) :
    (monitorHarbor s name).1.globalname = s.globalname := by
  unfold monitorHarbor
  split
  · rfl
  · split
    · rfl
    · rfl

end SkynetEureka.HarborMaster
