import SkynetEureka.RedisCluster.Cluster

/-!
# Connections are not mixed up

As long as a caller that finds a task finds one of its own client and kind, all that a task is about
is what its callers want. `Inv` says which coroutine runs a task, and who waits for it.
-/

namespace SkynetEureka.RedisCluster

open Lib Function

variable {opts : ℕ → Opt} {s s' : State} {co co' t c : ℕ} {call : Call} {caller : Caller}
  {task : Task} {kind kind' : Kind} {name name' victim : String}
  {conn conn' : Conn} {outcome : Outcome}

/-! ## What belongs together -/

/-- The connection is one of this kind, of this client, with its options, to the node of this name. -/
structure Own (opts : ℕ → Opt) (c : ℕ) (kind : Kind) (name : String) (conn : Conn) : Prop where
  kind : conn.kind = kind
  client : conn.client = c
  auth : conn.auth = (opts c).auth
  db : conn.db = (opts c).db.getD 0
  node : ∀ named, nodename ⟨conn.host, conn.port, named⟩ = name

/-- The task does what the call wants. -/
structure Task.Of (task : Task) (call : Call) : Prop where
  client : task.client = call.client
  kind : task.kind = call.kind
  name : task.name = nodename call.node

/-- An error, or a connection that is the task's own -/
def Outcome.Ok (opts : ℕ → Opt) (task : Task) : Outcome → Prop
  | .ok conn => Own opts task.client task.kind task.name conn
  | .error _ => True

/-- A task that its callers wait for is in the table, and no other. -/
def Phase.Ok (s : State) (co : ℕ) (call : Call) : Phase → Prop
  | .running t => s.tasks (nodename call.node) = some t ∧
      ∃ task, s.table t = some task ∧ task.Of call ∧ co ∉ task.waiting
  | .waiting t => s.tasks (nodename call.node) = some t ∧
      ∃ task, s.table t = some task ∧ task.Of call ∧ co ∈ task.waiting
  | .woken t => ∃ task, s.table t = some task ∧ task.Of call ∧ task.result ≠ none
  | .returned t outcome => ∃ task, s.table t = some task ∧ task.Of call ∧
      task.result = some outcome
  | .raised => True

structure Inv (opts : ℕ → Opt) (s : State) : Prop where
  opt : ∀ c, (s.clients c).opt = opts c
  cached : ∀ c kind name conn, (s.clients c).cached kind name = some conn →
    Own opts c kind name conn
  callers : ∀ co call phase, s.callers co = some ⟨call, phase⟩ → phase.Ok s co call
  tasks : ∀ name t, s.tasks name = some t → ∃ task, s.table t = some task ∧ task.name = name ∧
    task.result = none ∧ ∃ co call, s.callers co = some ⟨call, .running t⟩
  waiting : ∀ t task, s.table t = some task → task.result = none → ∀ co ∈ task.waiting,
    ∃ call, s.callers co = some ⟨call, .waiting t⟩
  single : ∀ co co' call call' t, s.callers co = some ⟨call, .running t⟩ →
    s.callers co' = some ⟨call', .running t⟩ → co = co'
  results : ∀ t task outcome, s.table t = some task → task.result = some outcome →
    outcome.Ok opts task
  fresh : ∀ t ≥ s.fresh, s.table t = none

theorem Own.conf (named : call.kind = kind) (opt : Opt) (hopt : opt = opts call.client) :
    Own opts call.client kind (nodename call.node) (call.conf opt) := by
  subst hopt
  exact ⟨named, rfl, rfl, rfl, fun _ => rfl⟩

/-! ## The connections of a client -/

theorem cached_store {client : Client}
    (h : (client.store kind' name' conn).cached kind name = some conn') :
    (kind = kind' ∧ name = name' ∧ conn' = conn) ∨ client.cached kind name = some conn' := by
  cases kind <;> cases kind' <;> unfold Client.store Client.cached at h <;> dsimp only at h
  · rw [Table.get_set] at h
    split at h
    · rename_i hname
      exact .inl ⟨rfl, hname, (Option.some.inj h).symm⟩
    · exact .inr h
  · exact .inr h
  · exact .inr h
  · rw [Table.get_set] at h
    split at h
    · rename_i hname
      exact .inl ⟨rfl, hname, (Option.some.inj h).symm⟩
    · exact .inr h

theorem cached_closeExisting {client : Client}
    (h : (client.closeExisting victim).cached kind name = some conn) :
    client.cached kind name = some conn := by
  unfold Client.closeExisting at h
  split at h
  · cases kind with
    | ordinary =>
      unfold Client.cached at h ⊢
      dsimp only at h ⊢
      rw [Table.get_set] at h
      split at h
      · cases h
      · exact h
    | watch => exact h
  · exact h

theorem store_opt {client : Client} : (client.store kind name conn).opt = client.opt := by
  cases kind <;> rfl

theorem closeExisting_opt {client : Client} : (client.closeExisting victim).opt = client.opt := by
  unfold Client.closeExisting
  split <;> rfl

/-- The connections of one client change. -/
theorem Inv.client {client : Client} (h : Inv opts s) (hopt : client.opt = (s.clients c).opt)
    (hcached : ∀ kind name conn, client.cached kind name = some conn →
      Own opts c kind name conn) :
    Inv opts { s with clients := update s.clients c client } := by
  refine ⟨?_, ?_, h.callers, h.tasks, h.waiting, h.single, h.results, h.fresh⟩
  · intro c'
    by_cases hc : c' = c
    · subst hc
      dsimp only
      rw [update_self, hopt]
      exact h.opt c'
    · dsimp only
      rw [update_of_ne hc]
      exact h.opt c'
  · intro c' kind name conn hconn
    dsimp only at hconn
    by_cases hc : c' = c
    · subst hc
      rw [update_self] at hconn
      exact hcached kind name conn hconn
    · rw [update_of_ne hc] at hconn
      exact h.cached c' kind name conn hconn

/-! ## Callers and tasks -/

/-- The coroutine neither runs a task nor waits for one. -/
structure Idle (s : State) (co : ℕ) : Prop where
  running : ∀ call t, s.callers co ≠ some ⟨call, .running t⟩
  waiting : ∀ call t, s.callers co ≠ some ⟨call, .waiting t⟩

theorem Idle.over (hover : ∀ caller ∈ s.callers co, caller.phase.isOver) : Idle s co := by
  constructor
  · intro call t hcaller
    have hover := hover _ hcaller
    cases hover
  · intro call t hcaller
    have hover := hover _ hcaller
    cases hover

theorem Idle.not_mem (hidle : Idle s co) (h : Inv opts s) (htask : s.table t = some task)
    (hresult : task.result = none) : co ∉ task.waiting := by
  intro hmem
  obtain ⟨call, hcaller⟩ := h.waiting t task htask hresult co hmem
  exact hidle.waiting call t hcaller

/-- A call comes to its end, beside the tasks. -/
theorem Inv.leave {phase : Phase} (h : Inv opts s) (hidle : Idle s co) (hover : phase.isOver)
    (hok : phase.Ok s co call) : Inv opts (s.enter co call phase) := by
  have hother : ∀ co' ≠ co, (s.enter co call phase).callers co' = s.callers co' :=
    fun co' hne => update_of_ne hne _ _
  have hself : (s.enter co call phase).callers co = some ⟨call, phase⟩ := update_self _ _ _
  refine ⟨h.opt, h.cached, ?_, ?_, ?_, ?_, h.results, h.fresh⟩
  · intro co' call' phase' hcaller
    by_cases hco : co' = co
    · rw [hco, hself] at hcaller
      cases hcaller
      rw [hco]
      exact hok
    · rw [hother co' hco] at hcaller
      exact h.callers co' call' phase' hcaller
  · intro name t ht
    obtain ⟨task, htask, hname, hresult, co', call', hrunner⟩ := h.tasks name t ht
    refine ⟨task, htask, hname, hresult, co', call', ?_⟩
    rw [hother co']
    · exact hrunner
    · intro heq
      exact hidle.running call' t (heq ▸ hrunner)
  · intro t task htask hresult co' hmem
    obtain ⟨call', hcaller⟩ := h.waiting t task htask hresult co' hmem
    refine ⟨call', ?_⟩
    rw [hother co']
    · exact hcaller
    · intro heq
      exact hidle.waiting call' t (heq ▸ hcaller)
  · intro co₁ co₂ call₁ call₂ t h₁ h₂
    by_cases hco₁ : co₁ = co
    · rw [hco₁, hself] at h₁
      cases h₁
      cases hover
    · by_cases hco₂ : co₂ = co
      · rw [hco₂, hself] at h₂
        cases h₂
        cases hover
      · rw [hother co₁ hco₁] at h₁
        rw [hother co₂ hco₂] at h₂
        exact h.single co₁ co₂ call₁ call₂ t h₁ h₂

/-- What the callers see of a task stays as it is, but for `co`. -/
structure Task.Keeps (task task' : Task) (co : ℕ) : Prop where
  name : task'.name = task.name
  client : task'.client = task.client
  kind : task'.kind = task.kind
  result : task'.result = task.result
  waiting : ∀ co' ≠ co, co' ∈ task'.waiting ↔ co' ∈ task.waiting

theorem Task.Keeps.of {task' : Task} (h : task.Keeps task' co) (hof : task.Of call) :
    task'.Of call :=
  ⟨h.client.trans hof.client, h.kind.trans hof.kind, h.name.trans hof.name⟩

/-- What a caller knows of its task stays true when others come. -/
theorem Phase.Ok.keep {phase : Phase} (h : phase.Ok s co' call) (hne : co' ≠ co)
    (htasks : ∀ t, s.tasks (nodename call.node) = some t → s'.tasks (nodename call.node) = some t)
    (htable : ∀ t task, s.table t = some task →
      ∃ task', s'.table t = some task' ∧ task.Keeps task' co) :
    phase.Ok s' co' call := by
  cases phase with
  | running t =>
    obtain ⟨ht, task, htask, hof, hnot⟩ := h
    obtain ⟨task', htask', hkeeps⟩ := htable t task htask
    exact ⟨htasks t ht, task', htask', hkeeps.of hof,
      fun hmem => hnot ((hkeeps.waiting co' hne).mp hmem)⟩
  | waiting t =>
    obtain ⟨ht, task, htask, hof, hmem⟩ := h
    obtain ⟨task', htask', hkeeps⟩ := htable t task htask
    exact ⟨htasks t ht, task', htask', hkeeps.of hof, (hkeeps.waiting co' hne).mpr hmem⟩
  | woken t =>
    obtain ⟨task, htask, hof, hresult⟩ := h
    obtain ⟨task', htask', hkeeps⟩ := htable t task htask
    exact ⟨task', htask', hkeeps.of hof, hkeeps.result ▸ hresult⟩
  | returned t outcome =>
    obtain ⟨task, htask, hof, hresult⟩ := h
    obtain ⟨task', htask', hkeeps⟩ := htable t task htask
    exact ⟨task', htask', hkeeps.of hof, hkeeps.result.trans hresult⟩
  | raised => trivial

/-- A caller waits for a task that is about what it wants. -/
theorem Inv.join (h : Inv opts s) (hidle : Idle s co) (ht : s.tasks (nodename call.node) = some t)
    (htask : s.table t = some task) (hof : task.Of call) : Inv opts (s.join co t call) := by
  have hresult : task.result = none := by
    obtain ⟨task', htask', -, hresult, -⟩ := h.tasks _ t ht
    rw [← Option.some.inj (htask'.symm.trans htask)]
    exact hresult
  have hother : ∀ co' ≠ co, (s.join co t call).callers co' = s.callers co' :=
    fun co' hne => update_of_ne hne _ _
  have hself : (s.join co t call).callers co = some ⟨call, .waiting t⟩ := update_self _ _ _
  have hjoined : (s.join co t call).table t =
      some { task with waiting := task.waiting ++ [co] } := by
    refine (update_self _ _ _).trans ?_
    rw [htask]
    rfl
  have hrest : ∀ t' ≠ t, (s.join co t call).table t' = s.table t' :=
    fun t' hne => update_of_ne hne _ _
  have htable : ∀ t' task₁, s.table t' = some task₁ →
      ∃ task₂, (s.join co t call).table t' = some task₂ ∧ task₁.Keeps task₂ co := by
    intro t' task₁ htask₁
    by_cases htt : t' = t
    · rw [htt] at htask₁ ⊢
      obtain rfl : task = task₁ := Option.some.inj (htask.symm.trans htask₁)
      refine ⟨_, hjoined, rfl, rfl, rfl, rfl, ?_⟩
      intro co' hne
      rw [List.mem_append, List.mem_singleton]
      exact or_iff_left hne
    · exact ⟨task₁, (hrest t' htt).trans htask₁, rfl, rfl, rfl, rfl, fun _ _ => Iff.rfl⟩
  refine ⟨h.opt, h.cached, ?_, ?_, ?_, ?_, ?_, ?_⟩
  · intro co' call' phase hcaller
    by_cases hco : co' = co
    · rw [hco] at hcaller ⊢
      rw [hself] at hcaller
      cases hcaller
      refine ⟨ht, _, hjoined, ⟨hof.client, hof.kind, hof.name⟩, ?_⟩
      exact List.mem_append_right _ (List.mem_singleton_self _)
    · rw [hother co' hco] at hcaller
      exact (h.callers co' call' phase hcaller).keep hco (fun _ h => h) htable
  · intro name t' ht'
    obtain ⟨task₁, htask₁, hname, hres, co', call', hrunner⟩ := h.tasks name t' ht'
    obtain ⟨task₂, htask₂, hkeeps⟩ := htable t' task₁ htask₁
    refine ⟨task₂, htask₂, hkeeps.name.trans hname, hkeeps.result.trans hres, co', call', ?_⟩
    refine (hother co' ?_).trans hrunner
    intro heq
    exact hidle.running call' t' (heq ▸ hrunner)
  · intro t' task₂ htask₂ hres co' hmem
    by_cases htt : t' = t
    · rw [htt] at htask₂ ⊢
      rw [hjoined] at htask₂
      cases htask₂
      rcases List.mem_append.mp hmem with hold | hnew
      · obtain ⟨call', hcaller⟩ := h.waiting t task htask hresult co' hold
        refine ⟨call', (hother co' ?_).trans hcaller⟩
        intro heq
        exact hidle.waiting call' t (heq ▸ hcaller)
      · rw [List.mem_singleton.mp hnew]
        exact ⟨call, hself⟩
    · rw [hrest t' htt] at htask₂
      obtain ⟨call', hcaller⟩ := h.waiting t' task₂ htask₂ hres co' hmem
      refine ⟨call', (hother co' ?_).trans hcaller⟩
      intro heq
      exact hidle.waiting call' t' (heq ▸ hcaller)
  · intro co₁ co₂ call₁ call₂ t' h₁ h₂
    have hne : ∀ co' call', (s.join co t call).callers co' = some ⟨call', .running t'⟩ →
        co' ≠ co := by
      intro co' call' hcaller heq
      rw [heq, hself] at hcaller
      cases hcaller
    rw [hother co₁ (hne co₁ call₁ h₁)] at h₁
    rw [hother co₂ (hne co₂ call₂ h₂)] at h₂
    exact h.single co₁ co₂ call₁ call₂ t' h₁ h₂
  · intro t' task₂ outcome htask₂ hres
    by_cases htt : t' = t
    · rw [htt, hjoined] at htask₂
      cases htask₂
      exact h.results t task outcome htask hres
    · rw [hrest t' htt] at htask₂
      exact h.results t' task₂ outcome htask₂ hres
  · intro t' ht'
    have hnone := h.fresh t' ht'
    by_cases htt : t' = t
    · rw [htt, htask] at hnone
      cases hnone
    · exact (hrest t' htt).trans hnone

/-- A caller that finds no task runs its own. -/
theorem Inv.begin (h : Inv opts s) (hidle : Idle s co)
    (hnone : s.tasks (nodename call.node) = none) :
    Inv opts (s.begin co call (nodename call.node)) := by
  have hother : ∀ co' ≠ co, (s.begin co call (nodename call.node)).callers co' = s.callers co' :=
    fun co' hne => update_of_ne hne _ _
  have hself : (s.begin co call (nodename call.node)).callers co =
      some ⟨call, .running s.fresh⟩ := update_self _ _ _
  have hnew : (s.begin co call (nodename call.node)).table s.fresh =
      some ⟨nodename call.node, call.client, call.kind, [], none⟩ := update_self _ _ _
  have hold : ∀ t task, s.table t = some task → t ≠ s.fresh := by
    intro t task htask heq
    have hfresh := h.fresh s.fresh (Nat.le_refl _)
    rw [← heq, htask] at hfresh
    cases hfresh
  have hrest : ∀ t ≠ s.fresh, (s.begin co call (nodename call.node)).table t = s.table t :=
    fun t hne => update_of_ne hne _ _
  have htasks : ∀ name t, s.tasks name = some t →
      (s.begin co call (nodename call.node)).tasks name = some t := by
    intro name t ht
    refine (update_of_ne ?_ _ _).trans ht
    intro heq
    rw [heq, hnone] at ht
    cases ht
  have hrunning : ∀ co' call' t, (s.begin co call (nodename call.node)).callers co' =
      some ⟨call', .running t⟩ →
      (co' = co ∧ t = s.fresh) ∨ (t ≠ s.fresh ∧ s.callers co' = some ⟨call', .running t⟩) := by
    intro co' call' t hcaller
    by_cases hco : co' = co
    · rw [hco, hself] at hcaller
      cases hcaller
      exact .inl ⟨hco, rfl⟩
    · rw [hother co' hco] at hcaller
      obtain ⟨-, task, htask, -⟩ := h.callers co' call' _ hcaller
      exact .inr ⟨hold t task htask, hcaller⟩
  refine ⟨h.opt, h.cached, ?_, ?_, ?_, ?_, ?_, ?_⟩
  · intro co' call' phase hcaller
    by_cases hco : co' = co
    · rw [hco] at hcaller ⊢
      rw [hself] at hcaller
      cases hcaller
      exact ⟨update_self _ _ _, _, hnew, ⟨rfl, rfl, rfl⟩, List.not_mem_nil⟩
    · rw [hother co' hco] at hcaller
      refine (h.callers co' call' phase hcaller).keep hco (htasks _) ?_
      intro t task htask
      exact ⟨task, (hrest t (hold t task htask)).trans htask, rfl, rfl, rfl, rfl, fun _ _ => Iff.rfl⟩
  · intro name t ht
    have ht : update s.tasks (nodename call.node) (some s.fresh) name = some t := ht
    by_cases hname : name = nodename call.node
    · rw [hname, update_self] at ht
      cases ht
      exact ⟨_, hnew, hname.symm, rfl, co, call, hself⟩
    · rw [update_of_ne hname] at ht
      obtain ⟨task, htask, hname, hresult, co', call', hrunner⟩ := h.tasks name t ht
      refine ⟨task, (hrest t (hold t task htask)).trans htask, hname, hresult, co', call', ?_⟩
      refine (hother co' ?_).trans hrunner
      intro heq
      exact hidle.running call' t (heq ▸ hrunner)
  · intro t task htask hresult co' hmem
    by_cases ht : t = s.fresh
    · rw [ht, hnew] at htask
      cases htask
      cases hmem
    · rw [hrest t ht] at htask
      obtain ⟨call', hcaller⟩ := h.waiting t task htask hresult co' hmem
      refine ⟨call', (hother co' ?_).trans hcaller⟩
      intro heq
      exact hidle.waiting call' t (heq ▸ hcaller)
  · intro co₁ co₂ call₁ call₂ t h₁ h₂
    rcases hrunning co₁ call₁ t h₁ with ⟨hco₁, ht₁⟩ | ⟨ht₁, h₁⟩
    · rcases hrunning co₂ call₂ t h₂ with ⟨hco₂, -⟩ | ⟨ht₂, -⟩
      · rw [hco₁, hco₂]
      · exact (ht₂ ht₁).elim
    · rcases hrunning co₂ call₂ t h₂ with ⟨-, ht₂⟩ | ⟨-, h₂⟩
      · exact (ht₁ ht₂).elim
      · exact h.single co₁ co₂ call₁ call₂ t h₁ h₂
  · intro t task outcome htask hresult
    by_cases ht : t = s.fresh
    · rw [ht, hnew] at htask
      cases htask
      cases hresult
    · rw [hrest t ht] at htask
      exact h.results t task outcome htask hresult
  · intro t ht
    have hge : t ≥ s.fresh + 1 := ht
    rw [hrest t (by omega)]
    exact h.fresh t (by omega)

/-- A task comes to its end, and those that wait for it are woken. -/
theorem Inv.finish (h : Inv opts s) (hcaller : s.callers co = some ⟨call, .running t⟩)
    (htask : s.table t = some task) (hok : outcome.Ok opts task) :
    Inv opts (s.finish co t task call outcome) := by
  obtain ⟨ht, task', htask', hof, hnot⟩ := h.callers co call _ hcaller
  obtain rfl : task' = task := Option.some.inj (htask'.symm.trans htask)
  obtain ⟨task₀, htask₀, -, hresult, -⟩ := h.tasks _ t ht
  obtain rfl : task₀ = task' := Option.some.inj (htask₀.symm.trans htask)
  have hself : (s.finish co t task₀ call outcome).callers co =
      some ⟨call, .returned t outcome⟩ := by
    unfold State.finish
    dsimp only
    rw [update_self]
  have hwoken : ∀ co' ∈ task₀.waiting, ∃ call', s.callers co' = some ⟨call', .waiting t⟩ ∧
      (s.finish co t task₀ call outcome).callers co' = some ⟨call', .woken t⟩ := by
    intro co' hmem
    obtain ⟨call', hcaller'⟩ := h.waiting t task₀ htask hresult co' hmem
    refine ⟨call', hcaller', ?_⟩
    have hne : co' ≠ co := fun heq => hnot (heq ▸ hmem)
    unfold State.finish
    dsimp only
    rw [update_of_ne hne, if_pos hmem, hcaller']
    rfl
  have hother : ∀ co' ≠ co, co' ∉ task₀.waiting →
      (s.finish co t task₀ call outcome).callers co' = s.callers co' := by
    intro co' hne hmem
    unfold State.finish
    dsimp only
    rw [update_of_ne hne, if_neg hmem]
  have hdone : (s.finish co t task₀ call outcome).table t =
      some { task₀ with result := some outcome } := update_self _ _ _
  have hrest : ∀ t' ≠ t, (s.finish co t task₀ call outcome).table t' = s.table t' :=
    fun t' hne => update_of_ne hne _ _
  have htasks : ∀ name t', t' ≠ t → s.tasks name = some t' →
      (s.finish co t task₀ call outcome).tasks name = some t' := by
    intro name t' hne ht'
    refine (update_of_ne ?_ _ _).trans ht'
    intro heq
    rw [heq, hof.name, ht] at ht'
    exact hne (Option.some.inj ht').symm
  -- who runs or waits for another task is not touched
  have hrunning : ∀ co' call' t', s.callers co' = some ⟨call', .running t'⟩ → t' ≠ t →
      (s.finish co t task₀ call outcome).callers co' = some ⟨call', .running t'⟩ := by
    intro co' call' t' hcaller' hne
    refine (hother co' ?_ ?_).trans hcaller'
    · intro heq
      rw [heq, hcaller] at hcaller'
      cases hcaller'
      exact hne rfl
    · intro hmem
      obtain ⟨call₂, hwaiting, -⟩ := hwoken co' hmem
      rw [hcaller'] at hwaiting
      cases hwaiting
  have hstill : ∀ co' call' t', (s.finish co t task₀ call outcome).callers co' =
      some ⟨call', .running t'⟩ → s.callers co' = some ⟨call', .running t'⟩ := by
    intro co' call' t' hcaller'
    by_cases hco : co' = co
    · rw [hco, hself] at hcaller'
      cases hcaller'
    · by_cases hmem : co' ∈ task₀.waiting
      · obtain ⟨call₂, -, hw⟩ := hwoken co' hmem
        rw [hw] at hcaller'
        cases hcaller'
      · exact (hother co' hco hmem).symm.trans hcaller'
  refine ⟨h.opt, h.cached, ?_, ?_, ?_, ?_, ?_, ?_⟩
  · intro co' call' phase hcaller'
    by_cases hco : co' = co
    · rw [hco] at hcaller' ⊢
      rw [hself] at hcaller'
      cases hcaller'
      exact ⟨_, hdone, ⟨hof.client, hof.kind, hof.name⟩, rfl⟩
    · by_cases hmem : co' ∈ task₀.waiting
      · obtain ⟨call₂, hwaiting, hw⟩ := hwoken co' hmem
        rw [hw] at hcaller'
        cases hcaller'
        obtain ⟨-, task₂, htask₂, hof₂, -⟩ := h.callers co' call' _ hwaiting
        obtain rfl : task₂ = task₀ := Option.some.inj (htask₂.symm.trans htask)
        exact ⟨_, hdone, ⟨hof₂.client, hof₂.kind, hof₂.name⟩, Option.some_ne_none outcome⟩
      · rw [hother co' hco hmem] at hcaller'
        have hphase := h.callers co' call' phase hcaller'
        cases phase with
        | running t' =>
          obtain ⟨ht', task₂, htask₂, hrest₂⟩ := hphase
          have hne : t' ≠ t := fun heq => hco (h.single co' co call' call t (heq ▸ hcaller') hcaller)
          exact ⟨htasks _ t' hne ht', task₂, (hrest t' hne).trans htask₂, hrest₂⟩
        | waiting t' =>
          obtain ⟨ht', task₂, htask₂, hof₂, hmem₂⟩ := hphase
          have hne : t' ≠ t := by
            intro heq
            rw [heq, htask] at htask₂
            cases htask₂
            exact hmem hmem₂
          exact ⟨htasks _ t' hne ht', task₂, (hrest t' hne).trans htask₂, hof₂, hmem₂⟩
        | woken t' =>
          obtain ⟨task₂, htask₂, hof₂, hresult₂⟩ := hphase
          have hne : t' ≠ t := by
            intro heq
            rw [heq, htask] at htask₂
            cases htask₂
            exact hresult₂ hresult
          exact ⟨task₂, (hrest t' hne).trans htask₂, hof₂, hresult₂⟩
        | returned t' outcome' =>
          obtain ⟨task₂, htask₂, hof₂, hresult₂⟩ := hphase
          have hne : t' ≠ t := by
            intro heq
            rw [heq, htask] at htask₂
            cases htask₂
            rw [hresult] at hresult₂
            cases hresult₂
          exact ⟨task₂, (hrest t' hne).trans htask₂, hof₂, hresult₂⟩
        | raised => trivial
  · intro name t' ht'
    have ht' : update s.tasks task₀.name none name = some t' := ht'
    by_cases hname : name = task₀.name
    · rw [hname, update_self] at ht'
      cases ht'
    · rw [update_of_ne hname] at ht'
      obtain ⟨task₂, htask₂, hname₂, hresult₂, co', call', hrunner⟩ := h.tasks name t' ht'
      have hne : t' ≠ t := by
        intro heq
        rw [heq, htask] at htask₂
        cases htask₂
        exact hname hname₂.symm
      exact ⟨task₂, (hrest t' hne).trans htask₂, hname₂, hresult₂, co', call',
        hrunning co' call' t' hrunner hne⟩
  · intro t' task₂ htask₂ hresult₂ co' hmem₂
    by_cases hne : t' = t
    · rw [hne, hdone] at htask₂
      cases htask₂
      cases hresult₂
    · rw [hrest t' hne] at htask₂
      obtain ⟨call', hwaiting⟩ := h.waiting t' task₂ htask₂ hresult₂ co' hmem₂
      refine ⟨call', (hother co' ?_ ?_).trans hwaiting⟩
      · intro heq
        rw [heq, hcaller] at hwaiting
        cases hwaiting
      · intro hmem
        obtain ⟨call₂, hw, -⟩ := hwoken co' hmem
        rw [hwaiting] at hw
        cases hw
        exact hne rfl
  · intro co₁ co₂ call₁ call₂ t' h₁ h₂
    exact h.single co₁ co₂ call₁ call₂ t' (hstill co₁ call₁ t' h₁) (hstill co₂ call₂ t' h₂)
  · intro t' task₂ outcome' htask₂ hresult₂
    by_cases hne : t' = t
    · rw [hne, hdone] at htask₂
      cases htask₂
      cases hresult₂
      cases outcome with
      | ok conn => exact hok
      | error message => trivial
    · rw [hrest t' hne] at htask₂
      exact h.results t' task₂ outcome' htask₂ hresult₂
  · intro t' ht'
    have hnone := h.fresh t' ht'
    by_cases hne : t' = t
    · rw [hne, htask] at hnone
      cases hnone
    · exact (hrest t' hne).trans hnone

/-! ## Each step -/

/-- A caller that finds a task finds one of its own client and kind. -/
def Alone (s : State) : Action → Prop
  | .get _ call _ => (call.kind = .watch → call.node.named) →
      ∀ t ∈ s.tasks (nodename call.node), ∀ task ∈ s.table t,
        task.client = call.client ∧ task.kind = call.kind
  | _ => True

instance (s : State) : (a : Action) → Decidable (Alone s a)
  | .get _ call _ =>
    inferInstanceAs (Decidable ((call.kind = .watch → call.node.named) →
      ∀ t ∈ s.tasks (nodename call.node), ∀ task ∈ s.table t,
        task.client = call.client ∧ task.kind = call.kind))
  | .established .. | .resume _ => inferInstanceAs (Decidable True)

theorem Inv.init (opts : ℕ → Opt) : Inv opts (State.init opts) := by
  refine ⟨fun _ => rfl, ?_, ?_, ?_, ?_, ?_, ?_, fun _ _ => rfl⟩
  · intro c kind name conn hconn
    cases kind <;> cases hconn
  · intro co call phase hcaller
    cases hcaller
  · intro name t ht
    cases ht
  · intro t task htask
    cases htask
  · intro co co' call call' t hcaller
    cases hcaller
  · intro t task outcome htask
    cases htask

/-- The function of a new task -/
theorem Inv.connect (h : Inv opts s) (hidle : Idle s co)
    (hnone : s.tasks (nodename call.node) = none) :
    Inv opts (s.connect co call (nodename call.node) victim) := by
  have hbegin := h.begin hidle hnone
  unfold State.connect
  dsimp only
  split
  · rename_i conn hconn
    exact hbegin.finish (update_self _ _ _) (update_self _ _ _) (h.cached _ _ _ _ hconn)
  · refine hbegin.client ?_ ?_
    · split
      · exact closeExisting_opt
      · rfl
    · intro kind name conn hconn
      split at hconn
      · exact h.cached _ kind name conn (cached_closeExisting hconn)
      · exact h.cached _ kind name conn hconn

theorem Inv.get (h : Inv opts s) (halone : Alone s (.get co call victim))
    (hstep : s.step (.get co call victim) = some s') : Inv opts s' := by
  unfold State.step at hstep
  obtain ⟨hover, hstep⟩ := Option.ite_none_right_eq_some.mp hstep
  have hidle := Idle.over hover
  split at hstep
  · cases hstep
    exact h.leave hidle rfl trivial
  · rename_i hnamed
    have hnamed : call.kind = .watch → call.node.named := fun hkind => by
      by_contra hnot
      exact hnamed ⟨hkind, hnot⟩
    cases hstep
    unfold State.once
    split
    · rename_i t ht
      obtain ⟨task, htask, hname, -⟩ := h.tasks _ t ht
      obtain ⟨hclient, hkind⟩ := halone hnamed t ht task htask
      exact h.join hidle ht htask ⟨hclient, hkind, hname⟩
    · rename_i hnone
      exact h.connect hidle hnone

theorem Inv.established {err : Option String} (h : Inv opts s)
    (hstep : s.step (.established co err) = some s') : Inv opts s' := by
  unfold State.step at hstep
  obtain ⟨⟨call, phase⟩, hcaller, hstep⟩ := Option.bind_eq_some_iff.mp hstep
  split at hstep
  · rename_i t hphase
    cases hphase
    obtain ⟨task, htask, hstep⟩ := Option.bind_eq_some_iff.mp hstep
    obtain ⟨-, task', htask', hof, -⟩ := h.callers co call _ hcaller
    obtain rfl : task' = task := Option.some.inj (htask'.symm.trans htask)
    split at hstep
    · cases hstep
      exact h.finish hcaller htask trivial
    · cases hstep
      have hown : Own opts call.client call.kind task'.name
          (call.conf (s.clients call.client).opt) := by
        rw [hof.name]
        exact Own.conf rfl _ (h.opt call.client)
      have hclient := h.client (c := call.client)
        (@store_opt call.kind task'.name (call.conf (s.clients call.client).opt) _) ?_
      · refine hclient.finish hcaller htask ?_
        show Own opts task'.client task'.kind task'.name _
        rw [hof.client, hof.kind]
        exact hown
      · intro kind name conn hconn
        rcases cached_store hconn with ⟨rfl, rfl, rfl⟩ | hold
        · exact hown
        · exact h.cached _ kind name conn hold
  · cases hstep

theorem Inv.resume (h : Inv opts s) (hstep : s.step (.resume co) = some s') : Inv opts s' := by
  unfold State.step at hstep
  obtain ⟨⟨call, phase⟩, hcaller, hstep⟩ := Option.bind_eq_some_iff.mp hstep
  split at hstep
  · rename_i t hphase
    cases hphase
    obtain ⟨task, htask, hstep⟩ := Option.bind_eq_some_iff.mp hstep
    obtain ⟨outcome, hresult, heq⟩ := Option.bind_eq_some_iff.mp hstep
    cases heq
    obtain ⟨task', htask', hof, -⟩ := h.callers co call _ hcaller
    obtain rfl : task' = task := Option.some.inj (htask'.symm.trans htask)
    refine h.leave ⟨?_, ?_⟩ rfl ⟨task', htask, hof, hresult⟩
    · intro call' t' hrunning
      rw [hcaller] at hrunning
      cases hrunning
    · intro call' t' hwaiting
      rw [hcaller] at hwaiting
      cases hwaiting
  · cases hstep

theorem Inv.step {a : Action} (h : Inv opts s) (halone : Alone s a) (hstep : s.step a = some s') :
    Inv opts s' := by
  cases a with
  | get co call victim => exact h.get halone hstep
  | established co err => exact h.established hstep
  | resume co => exact h.resume hstep

/-! ## The connections of a service -/

/-- What the clients of a service rely on. A caller that waits is woken by the coroutine that runs its
task, with what has come out of this task. -/
structure Separate (opts : ℕ → Opt) (s : State) : Prop where
  own : ∀ co call t conn, s.callers co = some ⟨call, .returned t (.ok conn)⟩ →
    Own opts call.client call.kind (nodename call.node) conn
  single : ∀ co co' call call' t t', s.callers co = some ⟨call, .running t⟩ →
    s.callers co' = some ⟨call', .running t'⟩ → call'.client = call.client →
      call'.kind = call.kind → nodename call'.node = nodename call.node → co' = co
  waiting : ∀ co call t, s.callers co = some ⟨call, .waiting t⟩ →
    ∃ task, s.table t = some task ∧ task.Of call ∧ task.result = none ∧ co ∈ task.waiting ∧
      ∃ co' call', s.callers co' = some ⟨call', .running t⟩
  woken : ∀ co call t, s.callers co = some ⟨call, .woken t⟩ →
    ∃ task, s.table t = some task ∧ task.Of call ∧ task.result ≠ none
  returned : ∀ co call t outcome, s.callers co = some ⟨call, .returned t outcome⟩ →
    ∃ task, s.table t = some task ∧ task.Of call ∧ task.result = some outcome

theorem Inv.separate (h : Inv opts s) : Separate opts s where
  own co call t conn hcaller := by
    obtain ⟨task, htask, hof, hresult⟩ := h.callers co call _ hcaller
    have hown : Own opts task.client task.kind task.name conn := h.results t task _ htask hresult
    rw [← hof.client, ← hof.kind, ← hof.name]
    exact hown
  single co co' call call' t t' hcaller hcaller' _ _ hname := by
    obtain ⟨ht, -⟩ := h.callers co call _ hcaller
    obtain ⟨ht', -⟩ := h.callers co' call' _ hcaller'
    rw [hname, ht] at ht'
    cases ht'
    exact h.single co' co call' call t hcaller' hcaller
  waiting co call t hcaller := by
    obtain ⟨ht, task, htask, hof, hmem⟩ := h.callers co call _ hcaller
    obtain ⟨task', htask', -, hresult, hrunner⟩ := h.tasks _ t ht
    obtain rfl : task' = task := Option.some.inj (htask'.symm.trans htask)
    exact ⟨task', htask, hof, hresult, hmem, hrunner⟩
  woken co call t hcaller := h.callers co call _ hcaller
  returned co call t outcome hcaller := h.callers co call _ hcaller

/-- **Connections are not mixed up** in any run in which no caller waits for the task of another
client or of the other kind. -/
theorem connections_separate (opts : ℕ → Opt) (as : List Action)
    (halone : Guarded State.step Alone (State.init opts) as)
    (hrun : run State.step (State.init opts) as = some s) : Separate opts s := by
  have hinv : Inv opts s :=
    run_invariant (fun _ _ _ h halone hstep => h.step halone hstep) (Inv.init opts) halone hrun
  exact hinv.separate

/-- A client with a password of its own -/
def password : ℕ → Opt
  | 0 => ⟨some "a", none, none⟩
  | _ => ⟨some "b", some 1, none⟩

def node : Node := ⟨"db", 7000, true⟩

/-- Two coroutines of one client want a connection, then the other client does. -/
theorem connections_separate_shared : ∃ s : State,
    (s.callers 2).map Caller.phase =
      some (.returned 0 (.ok ⟨.ordinary, 0, "db", 7000, some "a", 0⟩)) ∧
    (s.callers 3).map Caller.phase =
      some (.returned 1 (.ok ⟨.watch, 1, "db", 7000, some "b", 1⟩)) ∧ Separate password s := by
  let as : List Action := [.get 1 ⟨0, .ordinary, node⟩ "", .get 2 ⟨0, .ordinary, node⟩ "",
    .established 1 none, .resume 2, .get 3 ⟨1, .watch, node⟩ "", .established 3 none]
  have hsome : ((run State.step (State.init password) as).map fun s =>
      ((s.callers 2).map Caller.phase, (s.callers 3).map Caller.phase)) =
      some (some (.returned 0 (.ok ⟨.ordinary, 0, "db", 7000, some "a", 0⟩)),
        some (.returned 1 (.ok ⟨.watch, 1, "db", 7000, some "b", 1⟩))) := by decide
  obtain ⟨s, hs, heq⟩ := Option.map_eq_some_iff.mp hsome
  simp only [Prod.mk.injEq] at heq
  exact ⟨s, heq.1, heq.2, connections_separate password as (by decide) hs⟩

/-- A client waits for the connection of another one, and gets it. -/
theorem connection_mixed : ∃ as : List Action, ∃ s,
    run State.step (State.init password) as = some s ∧ ¬Separate password s := by
  let as : List Action := [.get 1 ⟨0, .ordinary, node⟩ "", .get 2 ⟨1, .ordinary, node⟩ "",
    .established 1 none, .resume 2]
  have hsome : ((run State.step (State.init password) as).bind fun s =>
      (s.callers 2).map fun caller => (caller.call.client, caller.phase)) =
      some (1, .returned 0 (.ok ⟨.ordinary, 0, "db", 7000, some "a", 0⟩)) := by decide
  obtain ⟨s, hs, hsome⟩ := Option.bind_eq_some_iff.mp hsome
  obtain ⟨⟨call, phase⟩, hcaller, heq⟩ := Option.map_eq_some_iff.mp hsome
  simp only [Prod.mk.injEq] at heq
  obtain ⟨hclient, rfl⟩ := heq
  refine ⟨as, s, hs, fun h => ?_⟩
  have hown := (h.own 2 call 0 _ hcaller).client
  rw [hclient] at hown
  cases hown

end SkynetEureka.RedisCluster
