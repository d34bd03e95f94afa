import Mathlib

/-!
# Lua tables

`Table K V` is a table: a value of `nil` is `none`, and to assign it takes the entry out.
`pairs` lists the entries in some order, each key once.
-/

namespace SkynetEureka.Lib

/-- A table. -/
def Table (K V : Type) : Type := AList fun _ : K => V

namespace Table

variable {K V : Type} [DecidableEq K] {t : Table K V} {k k' : K} {v : V}

/-- `{}` -/
def empty : Table K V := (∅ : AList fun _ : K => V)

/-- `t[k]` -/
def get (t : Table K V) (k : K) : Option V := AList.lookup k t

/-- `t[k] = v` -/
def set (t : Table K V) (k : K) : Option V → Table K V
  | none => AList.erase k t
  | some v => AList.insert k v t

/-- The entries, as the loop over `pairs(t)` takes them. -/
def pairs (t : Table K V) : List (K × V) := (AList.entries t).map fun e => (e.1, e.2)

/-- The entries for which `p` holds. -/
def filter (t : Table K V) (p : K → V → Bool) : Table K V :=
  ⟨(AList.entries t).filter fun e => p e.1 e.2, t.nodupKeys.sublist List.filter_sublist⟩

@[simp, grind =] theorem get_empty : (empty : Table K V).get k = none := AList.lookup_empty k

@[grind =] theorem get_set {v : Option V} :
    (t.set k v).get k' = if k' = k then v else t.get k' := by
  unfold get set
  by_cases h : k' = k
  · subst h
    rw [if_pos rfl]
    cases v with
    | none => exact AList.lookup_erase k' t
    | some v => exact AList.lookup_insert t
  · rw [if_neg h]
    cases v with
    | none => exact AList.lookup_erase_ne h
    | some v => exact AList.lookup_insert_ne h

@[simp] theorem get_set_self {v : Option V} : (t.set k v).get k = v := by
  rw [get_set, if_pos rfl]

theorem get_set_of_ne {v : Option V} (h : k' ≠ k) : (t.set k v).get k' = t.get k' := by
  rw [get_set, if_neg h]

theorem mem_pairs : (k, v) ∈ t.pairs ↔ t.get k = some v := by
  unfold pairs get
  rw [List.mem_map]
  constructor
  · rintro ⟨e, he, heq⟩
    cases heq
    exact AList.mem_lookup_iff.mpr he
  · intro h
    exact ⟨⟨k, v⟩, AList.mem_lookup_iff.mp h, rfl⟩

omit [DecidableEq K] in
/-- The loop over `pairs(t)` comes to each key once. -/
theorem nodup_pairs (t : Table K V) : (t.pairs.map Prod.fst).Nodup := by
  unfold pairs
  rw [List.map_map]
  exact AList.keys_nodup t

theorem get_filter {p : K → V → Bool} :
    (t.filter p).get k = (t.get k).filter (p k) := by
  apply Option.ext
  intro v
  have hmem : (⟨k, v⟩ : Sigma fun _ : K => V) ∈ AList.entries (t.filter p) ↔
      (⟨k, v⟩ : Sigma fun _ : K => V) ∈ AList.entries t ∧ p k v := List.mem_filter
  have hget : ∀ t : Table K V, t.get k = some v ↔
      (⟨k, v⟩ : Sigma fun _ : K => V) ∈ AList.entries t := fun t => AList.mem_lookup_iff
  rw [hget, hmem, Option.filter_eq_some_iff, hget]

end Table

end SkynetEureka.Lib
