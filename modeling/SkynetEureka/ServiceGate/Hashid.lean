import SkynetEureka.Lib.Run

/-!
# The table of ids (hashid.h)

The node of an id is one of `cap` slots, and the nodes with the same hash are linked. A pointer to a
node is the number of its slot. `none` is an `int` that overflows, an assertion that fails, or a
chain that does not end.
-/

namespace SkynetEureka.ServiceGate

open Function

/-- `struct hashid_node` -/
structure HashidNode where
  id : ℤ
  next : Option ℕ

/-- `struct hashid` -/
structure Hashid where
  hashmod : ℕ
  cap : ℕ
  count : ℤ
  id : ℕ → HashidNode
  hash : ℕ → Option ℕ

/-- `while (hashcap < max) { hashcap *= 2; }`, of at most so many rounds -/
def hashcapLoop (max : ℕ) : ℕ → ℕ → Option ℕ
  | 0, _ => none
  | rounds + 1, hashcap =>
    if hashcap < max then
      if 2 ^ 31 ≤ hashcap * 2 then none else hashcapLoop max rounds (hashcap * 2)
    else some hashcap

/-- `hashid_init`: from 16 on, an `int` is doubled at most 27 times. -/
def hashidInit (max : ℕ) : Option Hashid := do
  let hashcap ← hashcapLoop max 28 16
  some ⟨hashcap - 1, max, 0, fun _ => ⟨-1, none⟩, fun _ => none⟩

namespace Hashid

variable (t : Hashid)

/-- The loop of `hashid_lookup`, of at most so many rounds -/
def lookupLoop (id : ℕ) : ℕ → Option ℕ → Option ℤ
  | 0, _ => none
  | _ + 1, none => some (-1)
  | rounds + 1, some c =>
    if (t.id c).id = id then some c else lookupLoop id rounds (t.id c).next

/-- `hashid_lookup` -/
def lookup (id : ℕ) : Option ℤ := t.lookupLoop id (t.cap + 1) (t.hash (id &&& t.hashmod))

/-- The loop of `hashid_remove` behind node `c`, of at most so many rounds: the node of the id is
unlinked. -/
def removeLoop (id : ℕ) : ℕ → ℕ → Option (Hashid × Option ℕ)
  | 0, _ => none
  | rounds + 1, c =>
    match (t.id c).next with
    | none => some (t, none)
    | some temp =>
      if (t.id temp).id = id then
        some ({ t with id := update t.id c { t.id c with next := (t.id temp).next } }, some temp)
      else removeLoop id rounds temp

/-- `_clear:` of `hashid_remove` -/
def clearNode (c : ℕ) : Hashid :=
  { t with id := update t.id c ⟨-1, none⟩, count := t.count - 1 }

/-- `hashid_remove` -/
def remove (id : ℕ) : Option (Hashid × ℤ) := do
  let h := id &&& t.hashmod
  let r ← match t.hash h with
    | none => some (t, none)
    | some c =>
      if (t.id c).id = id then some ({ t with hash := update t.hash h (t.id c).next }, some c)
      else t.removeLoop id (t.cap + 1) c
  match r with
  | (t, none) => some (t, -1)
  | (t, some c) => some (t.clearNode c, c)

/-- The loop of `hashid_insert`, of so many rounds from `i` on: the first free slot, if there is
one -/
def findLoop (id : ℕ) : ℕ → ℕ → Option (Option ℕ)
  | 0, _ => some none
  | rounds + 1, i =>
    -- `i+id` overflows
    if 2 ^ 31 ≤ i + id then none
    else
      let index := (i + id) % t.cap
      if (t.id index).id = -1 then some (some index) else findLoop id rounds (i + 1)

/-- `hashid_insert` -/
def insert (id : ℕ) : Option (Hashid × ℕ) := do
  let found ← t.findLoop id t.cap 0
  let c ← found
  if (t.id c).next.isSome then none
  else
    let h := id &&& t.hashmod
    some ({ t with count := t.count + 1, id := update t.id c ⟨id, t.hash h⟩,
                   hash := update t.hash h (some c) }, c)

end Hashid

/-! ## Runs -/

/-- A call -/
inductive HashidOp where
  | insert (id : ℕ)
  | remove (id : ℕ)
  | lookup (id : ℕ)

/-- What calls have done -/
inductive HashidEvent where
  | inserted (id slot : ℕ)
  | removed (id : ℕ)

/-- The slot given by the insert of an id that has not been removed since then; the events are the
newest first. -/
def slotOf : List HashidEvent → ℕ → Option ℕ
  | [], _ => none
  | .inserted id' slot :: log, id => if id = id' then some slot else slotOf log id
  | .removed id' :: log, id => if id = id' then none else slotOf log id

/-- A table, and what has been done with it -/
structure Slots where
  table : Hashid
  log : List HashidEvent

namespace Slots

/-- One call -/
def step (s : Slots) : HashidOp → Option Slots
  | .insert id => do
    let (table, slot) ← s.table.insert id
    some ⟨table, .inserted id slot :: s.log⟩
  | .remove id => do
    let (table, _) ← s.table.remove id
    some ⟨table, .removed id :: s.log⟩
  | .lookup id => do
    let _ ← s.table.lookup id
    some s

/-- Ids are non-negative `int`s; only an absent one is inserted, and not when the table is full. -/
def Allowed (s : Slots) : HashidOp → Prop
  | .insert id => id < 2 ^ 31 ∧ slotOf s.log id = none ∧ s.table.count ≠ s.table.cap
  | .remove id => id < 2 ^ 31
  | .lookup id => id < 2 ^ 31

/-- An insert comes to a free slot before `i+id` overflows. -/
def Probes (s : Slots) : HashidOp → Prop
  | .insert id => ∃ i < s.table.cap, i + id < 2 ^ 31 ∧
      (s.table.id ((i + id) % s.table.cap)).id = -1
  | _ => True

instance (s : Slots) : (op : HashidOp) → Decidable (s.Allowed op)
  | .insert id => inferInstanceAs (Decidable (id < 2 ^ 31 ∧ _ = _ ∧ _ ≠ _))
  | .remove id => inferInstanceAs (Decidable (id < 2 ^ 31))
  | .lookup id => inferInstanceAs (Decidable (id < 2 ^ 31))

instance (s : Slots) : (op : HashidOp) → Decidable (s.Probes op)
  | .insert id => inferInstanceAs (Decidable (∃ i < s.table.cap, i + id < 2 ^ 31 ∧ _ = _))
  | .remove _ => inferInstanceAs (Decidable True)
  | .lookup _ => inferInstanceAs (Decidable True)

end Slots

end SkynetEureka.ServiceGate
