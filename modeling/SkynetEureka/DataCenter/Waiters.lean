import SkynetEureka.DataCenter.Paths

/-!
# Every waiter is answered

A request "WAIT" is answered when its path gets a value (`waiters_answered`). Four things are in the
way: a path that leads through what is no table raises an error; so does one above or below which
there are waiters; a table that is set with values in it wakes nobody, nor does an update that only
leaves empty tables behind; and `wakeup` takes a new value for one more key.
-/

namespace SkynetEureka.DataCenter

open Lib Function

/-- With `nil` nobody waits above the path; nobody waits below it for what the new value has there,
nor under a key that is the new value itself when the path had none. -/
def Datacenter.Clear (s : Datacenter) (path : List Key) (value : Option Value) : Prop :=
  (value = none → ∀ q rs, Queued s.waitQueue q rs → q <+: path → q = path) ∧
    ∀ q rs, Queued s.waitQueue (path ++ q) rs → q ≠ [] →
      ¬ True? (value.bind fun v => v.get q) ∧
        (¬ True? ((Value.table s.database).get path) → ∀ k, q = [k] → value ≠ some (.key k))

/-- Nobody waits above the path, and nobody has waited below it. -/
def Datacenter.Free (s : Datacenter) (path : List Key) : Prop :=
  (∀ q rs, Queued s.waitQueue q rs → q <+: path → q = path) ∧
    ∀ entries, (Waits.branch s.waitQueue).get path ≠ some (.branch entries)

/-- None of the four is in the way. -/
def Datacenter.Orderly (s : Datacenter) : Request → Prop
  | .query _ _ => True
  | .update key path value =>
    (DataCenter.update s.database (key :: path) value).isSome → s.Clear (key :: path) value
  | .wait key path => (s.query key path).isSome ∧
    (¬ True? ((Value.table s.database).get (key :: path)) → s.Free (key :: path))

/-- The answer is what the path leads to, or the path has become a branch. -/
def Answer.Right (database : Key → Option Value) (path : List Key) : Answer → Prop
  | .value v => (Value.table database).get path = some v
  | .failed => ∃ entries, (Value.table database).get path = some (.table entries)

/-- Each request that has waited is in one queue, or has been answered. -/
structure Waiting (s : Datacenter) : Prop where
  path : ∀ q rs, Queued s.waitQueue q rs → ∀ r ∈ rs, s.waits[r]? = some q
  once : ∀ r q, s.waits[r]? = some q →
    (∃ rs, Queued s.waitQueue q rs ∧ rs.count r = 1) ∧ s.answers.countP (·.1 = r) = 0 ∨
      (∀ rs, Queued s.waitQueue q rs → r ∉ rs) ∧ s.answers.countP (·.1 = r) = 1
  answered : ∀ e ∈ s.answers, e.1 < s.waits.length
  unresolved : ∀ q rs, Queued s.waitQueue q rs → ¬ True? ((Value.table s.database).get q)

section

variable {s : Datacenter} {key : Key} {path : List Key} {value ret : Option Value}
  {entries : Key → Option Value}

/-- An update leaves no waiter with a value, except the one that it wakes. -/
theorem unresolved_update (h : Waiting s)
    (hupdate : DataCenter.update s.database path value = some (entries, ret))
    (hclear : s.Clear path value) {q : List Key} {rs : List ℕ} (hq : Queued s.waitQueue q rs)
    (hstarts : q <+: path → value ≠ none → True? ret) : ¬ True? ((Value.table entries).get q) := by
  by_cases hbelow : path <+: q
  · obtain ⟨r, rfl⟩ := hbelow
    rw [get_update_below hupdate r]
    by_cases hr : r = []
    · subst hr
      rw [List.append_nil] at hq hstarts
      cases value with
      | none => exact fun ⟨_, heq, _⟩ => by cases heq
      | some v =>
        -- then the path had a value before
        have htrue := hstarts (List.prefix_refl _) nofun
        rw [← update_ret hupdate] at htrue
        exact absurd htrue (h.unresolved path rs hq)
    · exact (hclear.2 r rs hq hr).1
  · by_cases habove : q <+: path
    · obtain ⟨r, rfl⟩ := habove
      have hr : r ≠ [] := by
        rintro rfl
        exact hbelow (by rw [List.append_nil])
      cases value with
      | none =>
        have heq := hclear.1 rfl q rs hq (List.prefix_append q r)
        exact absurd (List.append_right_eq_self.mp heq.symm) hr
      | some v =>
        -- what a path with a value leads through is a table
        obtain ⟨w, hw, -⟩ := hstarts (List.prefix_append q r) nofun
        have hret := (update_ret hupdate).trans hw
        rw [get_append] at hret
        obtain ⟨w', hw', hget⟩ := Option.bind_eq_some_iff.mp hret
        refine absurd ?_ (h.unresolved q rs hq)
        refine ⟨w', hw', ?_⟩
        cases w' with
        | table entries => rfl
        | key k =>
          cases r with
          | nil => exact absurd rfl hr
          | cons k' r => cases hget
    · rw [get_update_beside hupdate hbelow habove]
      exact h.unresolved q rs hq

theorem Waiting.setDatabase (h : Waiting s)
    (hunresolved : ∀ q rs, Queued s.waitQueue q rs → ¬ True? ((Value.table entries).get q)) :
    Waiting { s with database := entries } :=
  { h with unresolved := hunresolved }

/-- A queue is taken out of the tree, and the requests in it are answered. -/
theorem Waiting.answer (h : Waiting s) {q : List Key} {rs : List ℕ} (hq : Queued s.waitQueue q rs)
    (waitQueue : Key → Option Waits) (a : Answer)
    (hqueue : ∀ q' rs', Queued waitQueue q' rs' ↔ q' ≠ q ∧ Queued s.waitQueue q' rs')
    (hunresolved : ∀ q' rs', Queued s.waitQueue q' rs' → q' ≠ q →
      ¬ True? ((Value.table entries).get q')) :
    Waiting { s with
      database := entries
      waitQueue := waitQueue
      answers := s.answers ++ rs.map fun r => (r, a) } := by
  have hcount : ∀ r, (rs.map fun r => (r, a)).countP (·.1 = r) = rs.count r := by
    intro r
    rw [List.countP_map, List.count]
    exact List.countP_congr fun r' _ => by simp [beq_iff_eq]
  constructor
  · intro q' rs' hq'
    exact h.path q' rs' ((hqueue q' rs').mp hq').2
  · intro r q' hr
    show _ ∧ (s.answers ++ _).countP _ = 0 ∨ _ ∧ (s.answers ++ _).countP _ = 1
    rw [List.countP_append, hcount]
    rcases h.once r q' hr with ⟨⟨rs', hq', hone⟩, hzero⟩ | ⟨hnot, hone⟩
    · by_cases heq : q' = q
      · subst heq
        cases hq.symm.trans hq'
        refine Or.inr ⟨fun rs'' hq'' => absurd rfl ((hqueue _ _).mp hq'').1, ?_⟩
        rw [hzero, hone]
      · refine Or.inl ⟨⟨rs', (hqueue q' rs').mpr ⟨heq, hq'⟩, hone⟩, ?_⟩
        rw [hzero, List.count_eq_zero_of_not_mem]
        intro hmem
        exact heq (Option.some.inj (hr.symm.trans (h.path q rs hq r hmem)))
    · refine Or.inr ⟨fun rs' hq' => hnot rs' ((hqueue q' rs').mp hq').2, ?_⟩
      rw [hone, List.count_eq_zero_of_not_mem]
      intro hmem
      cases hr.symm.trans (h.path q rs hq r hmem)
      exact hnot rs hq hmem
  · intro e he
    rcases List.mem_append.mp he with hold | hnew
    · exact h.answered e hold
    · obtain ⟨r, hr, rfl⟩ := List.mem_map.mp hnew
      exact (List.getElem?_eq_some_iff.mp (h.path q rs hq r hr)).1
  · intro q' rs' hq'
    obtain ⟨hne, hold⟩ := (hqueue q' rs').mp hq'
    exact hunresolved q' rs' hold hne

/-- Where on the way of the update the queue is that `wakeup` takes. -/
theorem queue_on_path {q : List Key} {v : Value} {rest : List Value}
    (h : path.map Value.key ++ [v] = q.map .key ++ rest) :
    (∃ r, path = q ++ r ∧ rest.length = r.length + 1) ∨
      ∃ k, q = path ++ [k] ∧ v = .key k := by
  induction path generalizing q with
  | nil =>
    cases q with
    | nil => exact Or.inl ⟨[], rfl, by rw [← show [v] = rest from h]; rfl⟩
    | cons k q =>
      obtain ⟨hv, hrest⟩ := List.cons.inj h
      cases q with
      | nil => exact Or.inr ⟨k, rfl, hv⟩
      | cons k' q => cases hrest
  | cons k path ih =>
    cases q with
    | nil =>
      refine Or.inl ⟨k :: path, rfl, ?_⟩
      rw [← show _ = rest from h]
      simp
    | cons k' q =>
      obtain ⟨hk, hrest⟩ := List.cons.inj h
      cases hk
      rcases ih hrest with ⟨r, rfl, hlength⟩ | ⟨k'', rfl, hv⟩
      · exact Or.inl ⟨r, rfl, hlength⟩
      · exact Or.inr ⟨k'', rfl, hv⟩

/-- What an update does to the waiters. -/
theorem Waiting.update (h : Waiting s)
    (hok : (DataCenter.update s.database path value).isSome → s.Clear path value) :
    Waiting (s.update path value).1 ∧ (s.update path value).1.waits = s.waits ∧
      ∃ new, (s.update path value).1.answers = s.answers ++ new ∧
        ∀ e ∈ new, ∃ q, s.waits[e.1]? = some q ∧ e.2.Right (s.update path value).1.database q := by
  unfold Datacenter.update
  cases hupdate : DataCenter.update s.database path value with
  | none => exact ⟨h, rfl, [], (List.append_nil _).symm, nofun⟩
  | some found =>
    obtain ⟨entries, ret⟩ := found
    have hclear := hok (by rw [hupdate]; rfl)
    cases value with
    | none =>
      refine ⟨h.setDatabase fun q rs hq => ?_, rfl, [], (List.append_nil _).symm, nofun⟩
      exact unresolved_update h hupdate hclear hq fun _ hne => absurd rfl hne
    | some v =>
      dsimp only
      split_ifs with hret
      · refine ⟨h.setDatabase fun q rs hq => ?_, rfl, [], (List.append_nil _).symm, nofun⟩
        exact unresolved_update h hupdate hclear hq fun _ _ => true?_iff.mpr hret
      · rcases wakeup_spec s.waitQueue (path.map .key ++ [v]) with
          ⟨hwoken, hsame, hnone⟩ | ⟨q, rs, rest, hargs, hq, hwoken, hrest⟩
        · have heq : wakeup s.waitQueue (path.map .key ++ [v]) = (s.waitQueue, .nothing) :=
            Prod.ext hsame hwoken
          rw [heq]
          dsimp only
          refine ⟨h.setDatabase fun q rs hq => ?_, rfl, [], (List.append_nil _).symm, nofun⟩
          refine unresolved_update h hupdate hclear hq fun hstarts _ => absurd ?_ (hnone q rs hq)
          exact (hstarts.map _).trans (List.prefix_append _ _)
        · -- the others are neither on the way of the update nor below it with a value
          have hunresolved : q <+: path → ∀ q' rs', Queued s.waitQueue q' rs' → q' ≠ q →
              ¬ True? ((Value.table entries).get q') := by
            intro hon q' rs' hq' hne
            refine unresolved_update h hupdate hclear hq' fun hstarts _ => absurd ?_ hne
            rcases List.prefix_or_prefix_of_prefix hstarts hon with hle | hle
            · exact hq.eq_of_prefix hq' hle
            · exact (hq'.eq_of_prefix hq hle).symm
          rcases queue_on_path hargs with ⟨r, rfl, hlength⟩ | ⟨k, rfl, rfl⟩
          · have hon := List.prefix_append q r
            have hpath : ∀ e ∈ rs, s.waits[e]? = some q := h.path q rs hq
            by_cases hr : r = []
            · subst hr
              rw [if_pos (by rw [hlength]; rfl)] at hwoken
              have heq : wakeup s.waitQueue ((q ++ []).map .key ++ [v]) = (_, .wake rs) :=
                Prod.ext rfl hwoken
              rw [heq]
              refine ⟨h.answer hq _ (.value v) hrest (hunresolved hon), rfl, _, rfl, ?_⟩
              intro e he
              obtain ⟨e', he', rfl⟩ := List.mem_map.mp he
              refine ⟨q, hpath e' he', ?_⟩
              have hbelow := get_update_below hupdate []
              rw [List.append_nil, List.append_nil] at hbelow
              exact hbelow.trans (get_nil v)
            · have hne : rest.length ≠ 1 := by
                have := List.length_pos_iff.mpr hr
                omega
              rw [if_neg hne] at hwoken
              have heq : wakeup s.waitQueue ((q ++ r).map .key ++ [v]) = (_, .fail rs) :=
                Prod.ext rfl hwoken
              rw [heq]
              refine ⟨h.answer hq _ .failed hrest (hunresolved hon), rfl, _, rfl, ?_⟩
              intro e he
              obtain ⟨e', he', rfl⟩ := List.mem_map.mp he
              exact ⟨q, hpath e' he', get_update_above hupdate hr⟩
          · -- the queue below would be of the value itself
            have hret' : ¬ True? ((Value.table s.database).get path) := by
              rw [update_ret hupdate]
              exact fun htrue => hret (true?_iff.mp htrue)
            exact absurd rfl ((hclear.2 [k] rs hq nofun).2 hret' k rfl)

/-- `QUERY` finds a value that counts when there is one. -/
theorem query_true? (h : s.query key path = some ret) :
    True? ((Value.table s.database).get (key :: path)) ↔ True? ret := by
  unfold Datacenter.query at h
  rw [get_table_cons]
  cases hkey : s.database key with
  | none =>
    rw [hkey] at h
    cases h
    rfl
  | some d =>
    rw [hkey] at h
    dsimp only at h
    split_ifs at h with htrue
    · rw [← query_eq h]
    · -- below `false` there is nothing
      cases h
      refine ⟨fun ⟨w, hw, hwtrue⟩ => absurd ?_ htrue, nofun⟩
      cases path with
      | nil =>
        cases (get_nil d).symm.trans hw
        exact hwtrue
      | cons key' path =>
        cases d with
        | table entries => rfl
        | key k => cases hw

/-- A request begins to wait. -/
theorem Waiting.push (h : Waiting s) {waitQueue : Key → Option Waits} {rs : List ℕ}
    (hunresolved : ¬ True? ((Value.table s.database).get path))
    (hnew : Queued waitQueue path (rs ++ [s.waits.length]))
    (hold : Queued s.waitQueue path rs ∨ rs = [] ∧ ∀ rs', ¬ Queued s.waitQueue path rs')
    (hrest : ∀ q rs', q ≠ path → (Queued waitQueue q rs' ↔ Queued s.waitQueue q rs')) :
    Waiting { s with waitQueue := waitQueue, waits := s.waits ++ [path] } := by
  -- the number is new
  have hfresh : ∀ q rs', Queued s.waitQueue q rs' → ∀ r ∈ rs', r < s.waits.length :=
    fun q rs' hq r hr => (List.getElem?_eq_some_iff.mp (h.path q rs' hq r hr)).1
  have hrs : ∀ r ∈ rs, s.waits[r]? = some path := by
    intro r hr
    rcases hold with hq | ⟨rfl, -⟩
    · exact h.path path rs hq r hr
    · cases hr
  have hkeep : ∀ {r q}, s.waits[r]? = some q → (s.waits ++ [path])[r]? = some q := fun hr =>
    (List.getElem?_append_left (List.getElem?_eq_some_iff.mp hr).1).trans hr
  have hlast : (s.waits ++ [path])[s.waits.length]? = some path := by simp
  constructor
  · intro q rs' hq r hr
    by_cases heq : q = path
    · subst heq
      cases hnew.symm.trans hq
      rcases List.mem_append.mp hr with hr | hr
      · exact hkeep (hrs r hr)
      · rw [List.mem_singleton.mp hr]
        exact hlast
    · exact hkeep (h.path q rs' ((hrest q rs' heq).mp hq) r hr)
  · intro r q hr
    show _ ∧ s.answers.countP _ = 0 ∨ _ ∧ s.answers.countP _ = 1
    by_cases hlt : r < s.waits.length
    · replace hr : s.waits[r]? = some q := (List.getElem?_append_left hlt).symm.trans hr
      have hne : s.waits.length ≠ r := by omega
      apply (h.once r q hr).imp
      · rintro ⟨⟨rs', hq, hone⟩, hzero⟩
        refine ⟨?_, hzero⟩
        by_cases heq : q = path
        · subst heq
          refine ⟨_, hnew, ?_⟩
          rcases hold with hq' | ⟨-, hnone⟩
          · cases hq.symm.trans hq'
            rw [List.count_append, hone, List.count_singleton, beq_false_of_ne hne]
            rfl
          · exact absurd hq (hnone rs')
        · exact ⟨rs', (hrest q rs' heq).mpr hq, hone⟩
      · rintro ⟨hnot, hone⟩
        refine ⟨fun rs' hq hmem => ?_, hone⟩
        by_cases heq : q = path
        · subst heq
          cases hnew.symm.trans hq
          rcases List.mem_append.mp hmem with hmem | hmem
          · rcases hold with hq' | ⟨rfl, -⟩
            · exact hnot rs hq' hmem
            · cases hmem
          · exact hne (List.mem_singleton.mp hmem).symm
        · exact hnot rs' ((hrest q rs' heq).mp hq) hmem
    · have hlength := (List.getElem?_eq_some_iff.mp hr).1
      rw [List.length_append, List.length_singleton] at hlength
      obtain rfl : r = s.waits.length := by omega
      cases hlast.symm.trans hr
      refine Or.inl ⟨⟨_, hnew, ?_⟩, ?_⟩
      · rw [List.count_append, List.count_singleton_self, List.count_eq_zero_of_not_mem]
        intro hmem
        exact absurd (List.getElem?_eq_some_iff.mp (hrs _ hmem)).1 (lt_irrefl _)
      · rw [List.countP_eq_zero]
        intro e he heq
        have := h.answered e he
        rw [decide_eq_true_eq] at heq
        omega
  · intro e he
    have := h.answered e he
    show e.1 < (s.waits ++ [path]).length
    rw [List.length_append]
    omega
  · intro q rs' hq
    by_cases heq : q = path
    · rw [heq]
      exact hunresolved
    · exact h.unresolved q rs' ((hrest q rs' heq).mp hq)

/-- What a request "WAIT" does. -/
theorem Waiting.wait (h : Waiting s) (hok : s.Orderly (.wait key path)) :
    Waiting (s.wait key path).1 ∧ (s.wait key path).1.answers = s.answers ∧
      (¬ True? ((Value.table s.database).get (key :: path)) → (s.wait key path).2 = .later ∧
        (s.wait key path).1.waits = s.waits ++ [key :: path]) := by
  obtain ⟨hisSome, hfree⟩ := hok
  obtain ⟨ret, hquery⟩ := Option.isSome_iff_exists.mp hisSome
  rw [Datacenter.wait, hquery]
  dsimp only
  split_ifs with hret
  · exact ⟨h, rfl, fun hnot => absurd ((query_true? hquery).mpr (true?_iff.mpr hret)) hnot⟩
  · have hnot : ¬ True? ((Value.table s.database).get (key :: path)) :=
      fun htrue => hret (true?_iff.mp ((query_true? hquery).mp htrue))
    obtain ⟨habove, hbelow⟩ := hfree hnot
    obtain ⟨waitQueue, hwait⟩ :=
      waitfor_isSome s.waits.length (List.cons_ne_nil key path) habove hbelow
    rw [hwait]
    dsimp only
    obtain ⟨⟨rs, hnew, hold⟩, hrest⟩ := waitfor_spec hwait
    exact ⟨h.push hnot hnew hold hrest, rfl, fun _ => ⟨rfl, rfl⟩⟩

/-- One request. -/
theorem Waiting.handle (h : Waiting s) {a : Request} (hok : s.Orderly a) :
    Waiting (s.handle a).1 ∧ ∃ new, (s.handle a).1.answers = s.answers ++ new ∧
      ∀ e ∈ new, ∃ q, s.waits[e.1]? = some q ∧ e.2.Right (s.handle a).1.database q := by
  cases a with
  | query key path => exact ⟨h, [], (List.append_nil _).symm, nofun⟩
  | update key path value =>
    obtain ⟨hwaiting, -, new, hanswers, hright⟩ := h.update hok
    exact ⟨hwaiting, new, hanswers, hright⟩
  | wait key path =>
    obtain ⟨hwaiting, hanswers, -⟩ := h.wait hok
    exact ⟨hwaiting, [], hanswers.trans (List.append_nil _).symm, nofun⟩

theorem not_queued_start {q : List Key} {rs : List ℕ} :
    ¬ Queued Datacenter.start.waitQueue q rs := by
  intro hq
  cases q with
  | nil => exact not_queued_nil hq
  | cons k q => rcases queued_cons.mp hq with ⟨-, ⟨⟩⟩ | ⟨_, ⟨⟩, -⟩

theorem Waiting.start : Waiting .start where
  path _ _ hq := absurd hq not_queued_start
  once := nofun
  answered := nofun
  unresolved _ _ hq := absurd hq not_queued_start

/-- Every run of orderly requests. -/
theorem Waiting.run {as : List Request} (h : run Datacenter.step .start as = some s)
    (hok : Guarded Datacenter.step Datacenter.Orderly .start as) : Waiting s := by
  refine run_invariant ?_ Waiting.start hok h
  intro s a s' hs hok hstep
  cases hstep
  exact (hs.handle hok).1

end

/-- **Every waiter is answered.** In a run of orderly requests a request "WAIT" waits when there is
no value, nobody waits for a value that is there, and each waiter gets one answer, which is
right. -/
theorem waiters_answered {as : List Request} {a : Request} {s s' : Datacenter} {reply : Reply}
    (h : run Datacenter.step .start as = some s) (hhandle : s.handle a = (s', reply))
    (hok : Guarded Datacenter.step Datacenter.Orderly .start (as ++ [a])) :
    (∀ key path, a = .wait key path → ¬ True? ((Value.table s.database).get (key :: path)) →
      reply = .later ∧ s'.waits = s.waits ++ [key :: path]) ∧
    (∀ q rs, Queued s'.waitQueue q rs → ¬ True? ((Value.table s'.database).get q)) ∧
    (∀ r q, s'.waits[r]? = some q →
      (∃ rs, Queued s'.waitQueue q rs ∧ rs.count r = 1) ∧ s'.answers.countP (·.1 = r) = 0 ∨
        (∀ rs, Queued s'.waitQueue q rs → r ∉ rs) ∧ s'.answers.countP (·.1 = r) = 1) ∧
    ∃ new, s'.answers = s.answers ++ new ∧
      ∀ e ∈ new, ∃ q, s.waits[e.1]? = some q ∧ e.2.Right s'.database q := by
  obtain ⟨hbefore, hlast⟩ := guarded_append.mp hok
  have hwaiting := Waiting.run h hbefore
  have horderly : s.Orderly a := (hlast s h).1
  obtain ⟨hafter, hnew⟩ := hwaiting.handle horderly
  rw [hhandle] at hafter hnew
  refine ⟨?_, hafter.unresolved, hafter.once, hnew⟩
  rintro key path rfl hnot
  have hwait := (hwaiting.wait horderly).2.2 hnot
  change s.wait key path = (s', reply) at hhandle
  rwa [hhandle] at hwait

/-- The waiter is woken by the value. -/
theorem waiters_answered_wakeup :
    ∃ (s s' : Datacenter) (reply : Reply),
      run Datacenter.step .start [.wait (.string "a") [.string "b"]] = some s ∧
      s.handle (.update (.string "a") [.string "b"] (some (.key (.number 1)))) = (s', reply) ∧
      ∀ q rs, Queued s'.waitQueue q rs → ¬ True? ((Value.table s'.database).get q) := by
  have hok : Guarded Datacenter.step Datacenter.Orderly .start
      ([.wait (.string "a") [.string "b"]] ++
        [.update (.string "a") [.string "b"] (some (.key (.number 1)))]) := by
    refine ⟨⟨rfl, fun _ => ⟨fun q rs hq => absurd hq not_queued_start, nofun⟩⟩, ?_⟩
    rintro s ⟨⟩
    refine ⟨fun _ => ⟨nofun, fun q rs hq hne => absurd ?_ hne⟩, fun _ _ => trivial⟩
    -- the only waiter is at the path itself
    have hwaiter : Queued (Datacenter.start.wait (.string "a") [.string "b"]).1.waitQueue
      [.string "a", .string "b"] [0] := rfl
    exact List.append_right_eq_self.mp (hq.eq_of_prefix hwaiter (List.prefix_append _ q)).symm
  have hrun : run Datacenter.step .start [.wait (.string "a") [.string "b"]] =
    some (Datacenter.start.handle (.wait (.string "a") [.string "b"])).1 := rfl
  have hwaiters := waiters_answered hrun Prod.mk.eta.symm hok
  exact ⟨_, _, _, hrun, Prod.mk.eta.symm, hwaiters.2.1⟩

/-- The waiter is forgotten when a table with the value is set. -/
theorem waiter_forgotten :
    ∃ s : Datacenter, run Datacenter.step .start
      [.wait (.string "a") [.string "b"], .update (.string "a") [] (some (.table fun key =>
        if key = .string "b" then some (.key (.number 1)) else none))] = some s ∧
      Queued s.waitQueue [.string "a", .string "b"] [0] ∧
      True? ((Value.table s.database).get [.string "a", .string "b"]) := by
  refine ⟨_, rfl, ?_, .key (.number 1), ?_, rfl⟩
  · rfl
  · rfl

end SkynetEureka.DataCenter
