import SkynetEureka.DataCenter.Datacenterd

/-!
# Paths

What an update does to the value of a path, and what the two functions on `wait_queue` do to the
queue of a path.
-/

namespace SkynetEureka.DataCenter

open Function

/-! ## Values -/

/-- The value that a path leads to. -/
def Value.get : Value → List Key → Option Value
  | v, [] => some v
  | .table entries, k :: path => (entries k).bind fun v => v.get path
  | .key _, _ :: _ => none

/-- The value is there and counts as true. -/
def True? (v : Option Value) : Prop := ∃ w, v = some w ∧ w.isTrue

theorem true?_iff {v : Option Value} : True? v ↔ v.any Value.isTrue := by
  cases v with
  | none => exact ⟨nofun, nofun⟩
  | some w => exact ⟨fun ⟨_, heq, h⟩ => by cases heq; exact h, fun h => ⟨w, rfl, h⟩⟩

section

variable {db db' : Key → Option Value} {key : Key} {path q r : List Key} {value ret : Option Value}

@[simp] theorem get_nil (v : Value) : v.get [] = some v := by
  cases v <;> rfl

@[simp] theorem get_table_cons :
    (Value.table db).get (key :: path) = (db key).bind fun v => v.get path := rfl

theorem get_append (v : Value) (path q : List Key) :
    v.get (path ++ q) = (v.get path).bind fun w => w.get q := by
  induction path generalizing v with
  | nil => simp
  | cons key path ih =>
    cases v with
    | key k => rfl
    | table entries =>
      show (entries key).bind _ = ((entries key).bind _).bind _
      rw [Option.bind_assoc]
      exact Option.bind_congr fun w _ => ih w

/-- `query` finds what the path leads to. -/
theorem query_eq {v : Option Value} (h : query v path = some ret) :
    v.bind (fun w => w.get path) = ret := by
  induction path generalizing v with
  | nil =>
    obtain rfl := Option.some.inj h
    cases v with
    | none => rfl
    | some w => exact get_nil w
  | cons key path ih =>
    obtain ⟨w, hindex, hquery⟩ := Option.bind_eq_some_iff.mp h
    cases v with
    | none => cases hindex
    | some v =>
      have hnone : ∀ {path : List Key}, query none path = some ret → ret = none := by
        intro path hquery
        cases path with
        | nil => exact (Option.some.inj hquery).symm
        | cons key path => cases hquery
      cases v with
      | table entries =>
        cases hindex
        exact ih hquery
      | key k =>
        show none = ret
        cases k with
        | number n => cases hindex
        | boolean b => cases hindex
        | string s =>
          cases key with
          | number n =>
            cases hindex
            exact (hnone hquery).symm
          | boolean b =>
            cases hindex
            exact (hnone hquery).symm
          | string name =>
            change (if name ∈ stringLibrary then none else some none) = some w at hindex
            split at hindex
            · cases hindex
            · cases hindex
              exact (hnone hquery).symm

/-- One step of `update` at an inner table. -/
theorem update_cons {key' : Key} (h : update db (key :: key' :: path) value = some (db', ret)) :
    ∃ entries entries',
      (db key = none ∧ entries = (fun _ => none) ∨ db key = some (.table entries)) ∧
      update entries (key' :: path) value = some (entries', ret) ∧
      db' = Function.update db key (some (.table entries')) := by
  rw [update] at h
  split at h
  · rename_i hkey
    obtain ⟨⟨entries', ret'⟩, hupdate, heq⟩ := Option.map_eq_some_iff.mp h
    cases heq
    exact ⟨_, _, Or.inl ⟨hkey, rfl⟩, hupdate, rfl⟩
  · rename_i entries hkey
    obtain ⟨⟨entries', ret'⟩, hupdate, heq⟩ := Option.map_eq_some_iff.mp h
    cases heq
    exact ⟨_, _, Or.inr hkey, hupdate, rfl⟩
  · cases h

/-- The value that was there. -/
theorem update_ret (h : update db path value = some (db', ret)) :
    (Value.table db).get path = ret := by
  induction path generalizing db db' with
  | nil => cases h
  | cons key path ih =>
    cases path with
    | nil =>
      cases h
      show (db key).bind _ = db key
      cases db key with
      | none => rfl
      | some v => exact get_nil v
    | cons key' path =>
      obtain ⟨entries, entries', hkey, hupdate, -⟩ := update_cons h
      have hret := ih hupdate
      rw [get_table_cons]
      rcases hkey with ⟨hnone, rfl⟩ | hsome
      · rw [hnone]
        exact hret
      · rw [hsome]
        exact hret

/-- At the path and below it there is the new value. -/
theorem get_update_below (h : update db path value = some (db', ret)) (r : List Key) :
    (Value.table db').get (path ++ r) = value.bind fun v => v.get r := by
  induction path generalizing db db' with
  | nil => cases h
  | cons key path ih =>
    cases path with
    | nil =>
      cases h
      show (Function.update db key value key).bind _ = _
      rw [update_self]
      rfl
    | cons key' path =>
      obtain ⟨entries, entries', -, hupdate, rfl⟩ := update_cons h
      show (Function.update db key _ key).bind _ = _
      rw [update_self]
      exact ih hupdate

/-- Above the path there are tables. -/
theorem get_update_above (h : update db (q ++ r) value = some (db', ret)) (hr : r ≠ []) :
    ∃ entries, (Value.table db').get q = some (.table entries) := by
  induction q generalizing db db' with
  | nil => exact ⟨db', rfl⟩
  | cons key q ih =>
    cases hq : q ++ r with
    | nil => exact absurd (List.append_eq_nil_iff.mp hq).2 hr
    | cons key' path =>
      rw [List.cons_append, hq] at h
      obtain ⟨entries, entries', -, hupdate, rfl⟩ := update_cons h
      rw [← hq] at hupdate
      obtain ⟨entries'', hget⟩ := ih hupdate
      refine ⟨entries'', ?_⟩
      show (Function.update db key _ key).bind _ = _
      rw [update_self]
      exact hget

/-- Beside the path nothing changes. -/
theorem get_update_beside (h : update db path value = some (db', ret)) (hq : ¬ path <+: q)
    (hpath : ¬ q <+: path) : (Value.table db').get q = (Value.table db).get q := by
  induction path generalizing db db' q with
  | nil => cases h
  | cons key path ih =>
    cases q with
    | nil => exact absurd (List.nil_prefix) hpath
    | cons key₁ q =>
      by_cases hkey : key₁ = key
      · subst hkey
        have hq' : ¬ path <+: q := fun hp => hq ((List.cons_prefix_cons).mpr ⟨rfl, hp⟩)
        have hpath' : ¬ q <+: path := fun hp => hpath ((List.cons_prefix_cons).mpr ⟨rfl, hp⟩)
        cases path with
        | nil => exact absurd List.nil_prefix hq'
        | cons key' path =>
          obtain ⟨entries, entries', hentries, hupdate, rfl⟩ := update_cons h
          have hget := ih hupdate hq' hpath'
          show (Function.update db key₁ _ key₁).bind _ = (db key₁).bind _
          rw [update_self]
          rcases hentries with ⟨hnone, rfl⟩ | hsome
          · rw [hnone]
            show (Value.table entries').get q = none
            rw [hget]
            cases q with
            | nil => exact absurd List.nil_prefix hpath'
            | cons key₂ q => rfl
          · rw [hsome]
            exact hget
      · have hother : db' key₁ = db key₁ := by
          cases path with
          | nil =>
            cases h
            exact update_of_ne hkey _ _
          | cons key' path =>
            obtain ⟨entries, entries', -, -, rfl⟩ := update_cons h
            exact update_of_ne hkey _ _
        rw [get_table_cons, get_table_cons, hother]

end

/-! ## Waiters -/

/-- The node that a path leads to. -/
def Waits.get : Waits → List Key → Option Waits
  | w, [] => some w
  | .branch entries, k :: path => (entries k).bind fun w => w.get path
  | .queue _, _ :: _ => none

/-- The responses wait with the path. -/
def Queued (db : Key → Option Waits) (path : List Key) (responses : List ℕ) : Prop :=
  (Waits.branch db).get path = some (.queue responses)

section

variable {db db' : Key → Option Waits} {key : Key} {path q : List Key} {responses : List ℕ}

theorem waits_get_nil (w : Waits) : w.get [] = some w := by
  cases w <;> rfl

theorem not_queued_nil : ¬ Queued db [] responses := nofun

theorem queued_cons :
    Queued db (key :: path) responses ↔
      path = [] ∧ db key = some (.queue responses) ∨
        ∃ entries, db key = some (.branch entries) ∧ Queued entries path responses := by
  unfold Queued
  show (db key).bind _ = _ ↔ _
  cases hkey : db key with
  | none => exact ⟨nofun, fun h => by rcases h with ⟨-, h⟩ | ⟨_, h, -⟩ <;> cases h⟩
  | some w =>
    show w.get path = _ ↔ _
    cases w with
    | queue rs =>
      cases path with
      | nil =>
        constructor
        · rintro ⟨⟩
          exact Or.inl ⟨rfl, rfl⟩
        · rintro (⟨-, ⟨⟩⟩ | ⟨entries, ⟨⟩, -⟩)
          rfl
      | cons key' path => exact ⟨nofun, fun h => by rcases h with ⟨h, -⟩ | ⟨_, h, -⟩ <;> cases h⟩
    | branch entries =>
      constructor
      · intro h
        exact Or.inr ⟨entries, rfl, h⟩
      · rintro (⟨-, ⟨⟩⟩ | ⟨entries', ⟨⟩, h⟩)
        exact h

/-- An entry changes. -/
theorem queued_update_of_ne {key' : Key} (w : Option Waits) (h : key' ≠ key) :
    Queued (Function.update db key w) (key' :: path) responses ↔
      Queued db (key' :: path) responses := by
  rw [queued_cons, queued_cons, update_of_ne h]

theorem queued_update_self {entries : Key → Option Waits} :
    Queued (Function.update db key (some (.branch entries))) (key :: path) responses ↔
      Queued entries path responses := by
  rw [queued_cons, update_self]
  constructor
  · rintro (⟨-, ⟨⟩⟩ | ⟨entries', ⟨⟩, h⟩)
    exact h
  · exact fun h => Or.inr ⟨entries, rfl, h⟩

/-- Two queues are not on one path. -/
theorem Queued.eq_of_prefix {rs : List ℕ} (h : Queued db path responses) (hq : Queued db q rs)
    (hstarts : q <+: path) : q = path := by
  induction path generalizing db q with
  | nil => exact absurd h not_queued_nil
  | cons key path ih =>
    cases q with
    | nil => exact absurd hq not_queued_nil
    | cons key' q =>
      obtain ⟨rfl, hrest⟩ := List.cons_prefix_cons.mp hstarts
      rcases queued_cons.mp hq with ⟨rfl, hkey⟩ | ⟨entries, hkey, hq⟩
      · rcases queued_cons.mp h with ⟨rfl, -⟩ | ⟨entries, hkey', -⟩
        · rfl
        · cases hkey.symm.trans hkey'
      · rcases queued_cons.mp h with ⟨-, hkey'⟩ | ⟨entries', hkey', h⟩
        · cases hkey.symm.trans hkey'
        · cases hkey.symm.trans hkey'
          rw [ih h hq hrest]

/-- `wakeup` takes the queue that it meets on its way out of the tree, if there is one. -/
theorem wakeup_spec (db : Key → Option Waits) (args : List Value) :
    ((wakeup db args).2 = .nothing ∧ (wakeup db args).1 = db ∧
      ∀ q rs, Queued db q rs → ¬ q.map .key <+: args) ∨
    ∃ q rs rest, args = q.map .key ++ rest ∧ Queued db q rs ∧
      (wakeup db args).2 = (if rest.length = 1 then .wake rs else .fail rs) ∧
      ∀ q' rs', Queued (wakeup db args).1 q' rs' ↔ q' ≠ q ∧ Queued db q' rs' := by
  induction args generalizing db with
  | nil =>
    refine Or.inl ⟨rfl, rfl, fun q rs hq hstarts => ?_⟩
    rw [List.map_eq_nil_iff.mp (List.prefix_nil.mp hstarts)] at hq
    exact not_queued_nil hq
  | cons arg rest ih =>
    -- a queue is on the way only when it begins with the first argument
    have hnil : ∀ {q rs}, Queued db q rs → q.map Value.key <+: arg :: rest →
        ∃ key q', arg = .key key ∧ q = key :: q' ∧ q'.map Value.key <+: rest := by
      intro q rs hq hstarts
      cases q with
      | nil => exact absurd hq not_queued_nil
      | cons key q' =>
        obtain ⟨heq, hrest⟩ := List.cons_prefix_cons.mp hstarts
        exact ⟨key, q', heq.symm, rfl, hrest⟩
    cases arg with
    | table entries =>
      refine Or.inl ⟨by rw [wakeup], by rw [wakeup], fun q rs hq hstarts => ?_⟩
      obtain ⟨key, q', heq, -⟩ := hnil hq hstarts
      cases heq
    | key key =>
      cases hkey : db key with
      | none =>
        refine Or.inl ⟨by rw [wakeup, hkey], by rw [wakeup, hkey], fun q rs hq hstarts => ?_⟩
        obtain ⟨key', q', heq, rfl, -⟩ := hnil hq hstarts
        cases heq
        rcases queued_cons.mp hq with ⟨-, hkey'⟩ | ⟨_, hkey', -⟩
        all_goals cases hkey.symm.trans hkey'
      | some w =>
        cases w with
        | queue rs =>
          have hfst : (wakeup db (.key key :: rest)).1 = Function.update db key none := by
            rw [wakeup, hkey]
          refine Or.inr ⟨[key], rs, rest, rfl, queued_cons.mpr (Or.inl ⟨rfl, hkey⟩), ?_,
            fun q' rs' => ?_⟩
          · rw [wakeup, hkey]
          · rw [hfst]
            cases q' with
            | nil => exact ⟨fun h => absurd h not_queued_nil, fun h => absurd h.2 not_queued_nil⟩
            | cons key' q' =>
              by_cases heq : key' = key
              · subst heq
                constructor
                · intro h
                  rcases queued_cons.mp h with ⟨-, hkey'⟩ | ⟨_, hkey', -⟩
                  all_goals
                    rw [update_self] at hkey'
                    cases hkey'
                · rintro ⟨hne, h⟩
                  rcases queued_cons.mp h with ⟨rfl, -⟩ | ⟨_, hkey', -⟩
                  · exact absurd rfl hne
                  · cases hkey.symm.trans hkey'
              · rw [queued_update_of_ne none heq]
                refine ⟨fun h => ⟨fun heq' => heq (List.cons.inj heq').1, h⟩, And.right⟩
        | branch entries =>
          have hfst : (wakeup db (.key key :: rest)).1 =
              Function.update db key (some (.branch (wakeup entries rest).1)) := by
            rw [wakeup, hkey]
          have hsnd : (wakeup db (.key key :: rest)).2 = (wakeup entries rest).2 := by
            rw [wakeup, hkey]
          rcases ih entries with ⟨hwoken, hsame, hnone⟩ | ⟨q, rs, rest', rfl, hq, hwoken, hrest⟩
          · refine Or.inl ⟨hsnd.trans hwoken, ?_, fun q rs hq hstarts => ?_⟩
            · rw [hfst, hsame, ← hkey, update_eq_self]
            · obtain ⟨key', q', heq, rfl, hrest⟩ := hnil hq hstarts
              cases heq
              rcases queued_cons.mp hq with ⟨-, hkey'⟩ | ⟨entries', hkey', hq⟩
              · cases hkey.symm.trans hkey'
              · cases hkey.symm.trans hkey'
                exact hnone q' rs hq hrest
          · refine Or.inr ⟨key :: q, rs, rest', rfl, queued_cons.mpr (Or.inr ⟨entries, hkey, hq⟩),
              hsnd.trans hwoken, fun q' rs' => ?_⟩
            rw [hfst]
            cases q' with
            | nil => exact ⟨fun h => absurd h not_queued_nil, fun h => absurd h.2 not_queued_nil⟩
            | cons key' q' =>
              by_cases heq : key' = key
              · subst heq
                rw [queued_update_self, hrest, queued_cons, hkey]
                constructor
                · rintro ⟨hne, h⟩
                  exact ⟨fun heq => hne (List.cons.inj heq).2, Or.inr ⟨entries, rfl, h⟩⟩
                · rintro ⟨hne, ⟨-, ⟨⟩⟩ | ⟨_, ⟨⟩, h⟩⟩
                  exact ⟨fun heq => hne (by rw [heq]), h⟩
              · rw [queued_update_of_ne _ heq]
                refine ⟨fun h => ⟨fun heq' => heq (List.cons.inj heq').1, h⟩, And.right⟩

/-- `waitfor` succeeds when nobody waits above the path, and nobody has waited below it. -/
theorem waitfor_isSome (response : ℕ) (hpath : path ≠ [])
    (habove : ∀ q rs, Queued db q rs → q <+: path → q = path)
    (hbelow : ∀ entries, (Waits.branch db).get path ≠ some (.branch entries)) :
    ∃ db', waitfor response db path = some db' := by
  induction path generalizing db with
  | nil => exact absurd rfl hpath
  | cons key path ih =>
    cases path with
    | nil =>
      rw [waitfor]
      split
      · exact ⟨_, rfl⟩
      · exact ⟨_, rfl⟩
      · rename_i entries hkey
        refine absurd ?_ (hbelow entries)
        show (db key).bind _ = _
        rw [hkey]
        exact waits_get_nil _
    | cons key' path =>
      rw [waitfor]
      dsimp only
      split
      · have hfresh : ∃ db', waitfor response (fun _ => none) (key' :: path) = some db' := by
          apply ih (List.cons_ne_nil _ _)
          · intro q rs hq
            cases q with
            | nil => exact absurd hq not_queued_nil
            | cons k q => rcases queued_cons.mp hq with ⟨-, ⟨⟩⟩ | ⟨_, ⟨⟩, -⟩
          · intro entries h
            cases h
        obtain ⟨entries', heq⟩ := hfresh
        exact ⟨_, by rw [heq]; rfl⟩
      · rename_i entries hkey
        have hbranch : ∃ db', waitfor response entries (key' :: path) = some db' := by
          apply ih (List.cons_ne_nil _ _)
          · intro q rs hq hstarts
            have hqueue : Queued db (key :: q) rs := queued_cons.mpr (Or.inr ⟨entries, hkey, hq⟩)
            exact (List.cons.inj (habove _ rs hqueue (List.cons_prefix_cons.mpr ⟨rfl, hstarts⟩))).2
          · intro entries' h
            refine hbelow entries' ?_
            show (db key).bind _ = _
            rw [hkey]
            exact h
        obtain ⟨entries', heq⟩ := hbranch
        exact ⟨_, by rw [heq]; rfl⟩
      · rename_i rs hkey
        have hqueue : Queued db [key] rs := queued_cons.mpr (Or.inl ⟨rfl, hkey⟩)
        cases habove _ rs hqueue (List.cons_prefix_cons.mpr ⟨rfl, List.nil_prefix⟩)

/-- `waitfor` puts the response at the end of the queue of the path. -/
theorem waitfor_spec {response : ℕ} (h : waitfor response db path = some db') :
    (∃ rs, Queued db' path (rs ++ [response]) ∧ (Queued db path rs ∨
      rs = [] ∧ ∀ rs', ¬ Queued db path rs')) ∧
      ∀ q rs, q ≠ path → (Queued db' q rs ↔ Queued db q rs) := by
  induction path generalizing db db' with
  | nil => cases h
  | cons key path ih =>
    have hother : ∀ (w : Option Waits) k q rs, k ≠ key →
        (Queued (Function.update db key w) (k :: q) rs ↔ Queued db (k :: q) rs) :=
      fun w k q rs hne => queued_update_of_ne w hne
    cases path with
    | nil =>
      -- at the end of the path there is nothing, or a queue
      have hend : ∃ rs, db' = Function.update db key (some (.queue (rs ++ [response]))) ∧
          (db key = some (.queue rs) ∨ rs = [] ∧ db key = none) := by
        rw [waitfor] at h
        split at h
        · rename_i hkey
          cases h
          exact ⟨[], rfl, Or.inr ⟨rfl, hkey⟩⟩
        · rename_i rs hkey
          cases h
          exact ⟨rs, rfl, Or.inl hkey⟩
        · cases h
      obtain ⟨rs, rfl, hkey⟩ := hend
      refine ⟨⟨rs, queued_cons.mpr (Or.inl ⟨rfl, update_self ..⟩), ?_⟩, fun q rs' hne => ?_⟩
      · rcases hkey with hsome | ⟨rfl, hnone⟩
        · exact Or.inl (queued_cons.mpr (Or.inl ⟨rfl, hsome⟩))
        · refine Or.inr ⟨rfl, fun rs' hq => ?_⟩
          rcases queued_cons.mp hq with ⟨-, hsome⟩ | ⟨_, hsome, -⟩
          all_goals cases hnone.symm.trans hsome
      · cases q with
        | nil => exact ⟨fun h => absurd h not_queued_nil, fun h => absurd h not_queued_nil⟩
        | cons k q =>
          by_cases heq : k = key
          · subst heq
            rw [queued_cons, queued_cons, update_self]
            constructor
            · rintro (⟨rfl, -⟩ | ⟨_, ⟨⟩, -⟩)
              exact absurd rfl hne
            · rintro (⟨rfl, -⟩ | ⟨entries, hbranch, -⟩)
              · exact absurd rfl hne
              · rcases hkey with hsome | ⟨-, hnone⟩
                · cases hsome.symm.trans hbranch
                · cases hnone.symm.trans hbranch
          · exact hother _ k q rs' heq
    | cons key' path =>
      -- the rest of the path is in a branch, which may be new
      have hbranch : ∃ entries entries', waitfor response entries (key' :: path) = some entries' ∧
          db' = Function.update db key (some (.branch entries')) ∧
          ∀ q rs, Queued entries q rs ↔ Queued db (key :: q) rs ∧ q ≠ [] := by
        rw [waitfor] at h
        split at h
        · rename_i hkey
          obtain ⟨entries', hwait, heq⟩ := Option.map_eq_some_iff.mp h
          refine ⟨_, entries', hwait, heq.symm, fun q rs => ?_⟩
          rw [queued_cons, hkey]
          constructor
          · intro hq
            cases q with
            | nil => exact absurd hq not_queued_nil
            | cons k q => rcases queued_cons.mp hq with ⟨-, ⟨⟩⟩ | ⟨_, ⟨⟩, -⟩
          · rintro ⟨⟨-, ⟨⟩⟩ | ⟨_, ⟨⟩, -⟩, -⟩
        · rename_i entries hkey
          obtain ⟨entries', hwait, heq⟩ := Option.map_eq_some_iff.mp h
          refine ⟨entries, entries', hwait, heq.symm, fun q rs => ?_⟩
          rw [queued_cons, hkey]
          constructor
          · intro hq
            refine ⟨Or.inr ⟨entries, rfl, hq⟩, ?_⟩
            rintro rfl
            exact not_queued_nil hq
          · rintro ⟨⟨-, ⟨⟩⟩ | ⟨_, ⟨⟩, hq⟩, -⟩
            exact hq
        · cases h
      obtain ⟨entries, entries', hwait, rfl, hentries⟩ := hbranch
      obtain ⟨⟨rs, hnew, hold⟩, hrest⟩ := ih hwait
      refine ⟨⟨rs, queued_update_self.mpr hnew, ?_⟩, fun q rs' hne => ?_⟩
      · refine hold.imp (fun h => ((hentries _ _).mp h).1) (And.imp_right fun h rs' hq => ?_)
        exact h rs' ((hentries _ _).mpr ⟨hq, List.cons_ne_nil _ _⟩)
      · cases q with
        | nil => exact ⟨fun h => absurd h not_queued_nil, fun h => absurd h not_queued_nil⟩
        | cons k q =>
          by_cases heq : k = key
          · subst heq
            rw [queued_update_self, hrest q rs' fun heq => hne (by rw [heq]), hentries]
            refine and_iff_left_of_imp fun hq => ?_
            rintro rfl
            -- the queue would be above the path
            have hwait' := h
            rcases queued_cons.mp hq with ⟨-, hkey⟩ | ⟨_, -, hq⟩
            · rw [waitfor, hkey] at hwait'
              cases hwait'
            · exact not_queued_nil hq
          · exact hother _ k q rs' heq

end

end SkynetEureka.DataCenter
