import SkynetEureka.Coroutines.Tables

/-!
# Wake-ups and failed calls

When `dispatch_message` has returned, the wake-up queue and the error queue are empty, and each
coroutine that was in one of them has been resumed once (`queues_drained`). That needs two things:
no session comes into the error queue twice, and no token whose coroutine does not sleep any more
is taken from the wake-up queue in front of another one while nothing else is left to be resumed,
since `dispatch_wakeup` then ends.
-/

namespace SkynetEureka.Coroutines

open Lib Function

/-- The next token is of no coroutine that sleeps, there are others behind it, and no coroutine is
left whose suspension would go on with them. -/
def Scheduler.Stale (s : Scheduler) : Prop :=
  match s.wakeupQueue with
  | [] => False
  | token :: queue =>
    s.sleepSession.get token = none ∧ queue ≠ [] ∧ s.errorQueue = [] ∧ s.forkQueue = []

/-- `skynet.term` is not called for a service of which a session is in the error queue already, and
`dispatch_wakeup` does not end in front of other tokens. -/
def Scheduler.Orderly (s : Scheduler) : Act → Prop
  | .term service _ => s.FailsOnce 0 service
  | .dispatchWakeup => ¬ s.Stale
  | _ => True

instance (s : Scheduler) : Decidable s.Stale :=
  match h : s.wakeupQueue with
  | [] => isFalse (by rw [Scheduler.Stale, h]; exact id)
  | token :: queue => decidable_of_iff
      (s.sleepSession.get token = none ∧ queue ≠ [] ∧ s.errorQueue = [] ∧ s.forkQueue = [])
      (by rw [Scheduler.Stale, h])

instance (s : Scheduler) (a : Act) : Decidable (s.Orderly a) :=
  match a with
  | .term service _ => inferInstanceAs (Decidable (s.FailsOnce 0 service))
  | .dispatchWakeup => inferInstanceAs (Decidable (¬ s.Stale))
  | .response .. | .error .. | .request .. | .unknown .. | .wakeup _ | .fork _ | .timeout _
  | .sleep _ | .wait _ | .call _ | .ret | .ignoreret | .newResponse | .respond .. | .packed
  | .packFails | .exit | .finish | .raise | .dispatchErrorQueue | .crash _ | .nextFork _ | .leave =>
    isTrue trivial

/-! ## What is preserved -/

/-- Where `dispatch_message` stands, the queues are empty or go on to be served. -/
structure Queues (s : Scheduler) : Prop where
  idle : s.control = .idle → s.wakeupQueue = [] ∧ s.errorQueue = []
  forks : s.control = .forks → s.forkQueue = [] → s.wakeupQueue = [] ∧ s.errorQueue = []
  wakeups : ∀ n, s.control = .errors n → s.wakeupQueue ≠ [] →
    s.errorQueue ≠ [] ∧ 0 < n ∨ s.forkQueue ≠ []
  errors : ∀ n, s.control = .errors n → s.errorQueue ≠ [] → 0 < n ∨ s.forkQueue ≠ []

/-- What the log says about the coroutines that were in the queues. -/
structure History (s : Scheduler) : Prop where
  woken : ∀ σ, .woken σ ∈ s.log → (∃ token ∈ s.wakeupQueue, s.sleepSession.get token = some σ) ∨
    s.log.count (.resumed σ .brk) = 1
  failed : ∀ σ, .queued σ ∈ s.log → σ ∈ s.errorQueue ∨ s.log.count (.resumed σ .failure) = 1
  asleep : ∀ c σ, (s.status c).session? = some σ → .resumed σ .brk ∉ s.log
  calling : ∀ c σ, (s.status c).session? = some σ → .resumed σ .failure ∉ s.log
  future : ∀ σ how, s.sessions < σ → .resumed σ how ∉ s.log

/-- The three together. -/
structure Drained (s : Scheduler) : Prop where
  tables : Tables s none
  queues : Queues s
  history : History s

/-- An event that is neither a wake-up nor a failure. -/
def Event.Plain : Event → Prop
  | .woken _ | .queued _ | .resumed _ .brk | .resumed _ .failure => False
  | _ => True

section

variable {s s' : Scheduler} {c : Co} {n : ℕ} {σ : Session} {events : List Event}

theorem count_append_plain {e : Event} (he : ¬ e.Plain) (hevents : ∀ e' ∈ events, e'.Plain)
    (log : List Event) : (log ++ events).count e = log.count e := by
  rw [List.count_append, List.count_eq_zero_of_not_mem fun hmem => he (hevents e hmem), add_zero]

theorem mem_append_plain {e : Event} (he : ¬ e.Plain) (hevents : ∀ e' ∈ events, e'.Plain)
    {log : List Event} : e ∈ log ++ events ↔ e ∈ log := by
  rw [List.mem_append]
  exact or_iff_left fun hmem => he (hevents e hmem)

/-- Both queues are empty. -/
theorem Queues.empty (hwakeup : s.wakeupQueue = []) (herror : s.errorQueue = []) : Queues s :=
  ⟨fun _ => ⟨hwakeup, herror⟩, fun _ _ => ⟨hwakeup, herror⟩, fun _ _ hne => absurd hwakeup hne,
    fun _ _ hne => absurd herror hne⟩

/-- A `suspend` is still to come. -/
def Control.Busy : Control → Prop
  | .running _ _ | .wakeups _ | .crashed _ => True
  | _ => False

theorem Queues.busy (hbusy : s.control.Busy) : Queues s := by
  constructor
  · intro hcontrol
    rw [hcontrol] at hbusy
    exact hbusy.elim
  · intro hcontrol
    rw [hcontrol] at hbusy
    exact hbusy.elim
  · intro n hcontrol
    rw [hcontrol] at hbusy
    exact hbusy.elim
  · intro n hcontrol
    rw [hcontrol] at hbusy
    exact hbusy.elim

/-- A step after which no new coroutine waits for an old session, and whose tokens and sessions stay
in the queues. -/
theorem History.mono (h : History s) (events : List Event) (hlog : s'.log = s.log ++ events)
    (hplain : ∀ e ∈ events, e.Plain)
    (hstatus : ∀ c σ, (s'.status c).session? = some σ →
      (s.status c).session? = some σ ∨ s.sessions < σ)
    (hsessions : s.sessions ≤ s'.sessions)
    (hwakeup : ∀ token ∈ s.wakeupQueue, ∀ σ, s.sleepSession.get token = some σ →
      token ∈ s'.wakeupQueue ∧ s'.sleepSession.get token = some σ)
    (herror : ∀ σ ∈ s.errorQueue, σ ∈ s'.errorQueue)
    (hresumed : ∀ σ how, .resumed σ how ∈ events → σ ≤ s.sessions) : History s' := by
  constructor
  · intro σ hσ
    rw [hlog, mem_append_plain id hplain] at hσ
    rw [hlog, count_append_plain id hplain]
    refine (h.woken σ hσ).imp_left fun ⟨token, hmem, hget⟩ => ?_
    obtain ⟨hmem', hget'⟩ := hwakeup token hmem σ hget
    exact ⟨token, hmem', hget'⟩
  · intro σ hσ
    rw [hlog, mem_append_plain id hplain] at hσ
    rw [hlog, count_append_plain id hplain]
    exact (h.failed σ hσ).imp_left (herror σ)
  · intro c σ hσ
    rw [hlog, mem_append_plain id hplain]
    rcases hstatus c σ hσ with hold | hnew
    · exact h.asleep c σ hold
    · exact h.future σ .brk hnew
  · intro c σ hσ
    rw [hlog, mem_append_plain id hplain]
    rcases hstatus c σ hσ with hold | hnew
    · exact h.calling c σ hold
    · exact h.future σ .failure hnew
  · intro σ how hσ hmem
    rw [hlog] at hmem
    rcases List.mem_append.mp hmem with hold | hnew
    · exact h.future σ how (hsessions.trans_lt hσ) hold
    · exact absurd (hresumed σ how hnew) (not_le.mpr (hsessions.trans_lt hσ))

/-! ## Resuming -/

theorem session?_update {status : Co → Status} {st : Status} (hst : st.session? = none) {c' : Co}
    (hσ : (update status c st c').session? = some σ) : (status c').session? = some σ := by
  by_cases heq : c' = c
  · rw [heq, update_self, hst] at hσ
    cases hσ
  · rw [update_of_ne heq] at hσ
    exact hσ

/-- To resume a coroutine that has no token in the queue keeps the history. -/
theorem History.resume (h : History s)
    (htoken : ∀ token ∈ s.wakeupQueue, ∀ σ, (s.status c).token? ≠ some (token, σ)) :
    History (s.resume c n) := by
  obtain ⟨st, control, entries, sleeps, watches, heq, hst, -, hsleeps⟩ := resume_spec s c n
  rw [heq]
  refine h.mono [] (List.append_nil _).symm nofun (fun c' σ hσ => Or.inl (session?_update hst hσ))
    le_rfl (fun token hmem σ hget => ⟨hmem, ?_⟩) (fun σ hσ => hσ) nofun
  exact (hsleeps token σ).mpr ⟨hget, htoken token hmem⟩

theorem Queues.resume (hpooled : s.status c = .pooled → s.wakeupQueue = [] ∧ s.errorQueue = []) :
    Queues (s.resume c n) := by
  obtain ⟨st, control, entries, sleeps, watches, heq, -, hcontrol, -⟩ := resume_spec s c n
  rw [heq]
  rcases hcontrol with ⟨rfl, hst⟩ | rfl | rfl
  · obtain ⟨hwakeup, herror⟩ := hpooled hst
    exact ⟨nofun, nofun, fun k hk hne => absurd hwakeup hne, fun k hk hne => absurd herror hne⟩
  · exact ⟨nofun, nofun, nofun, nofun⟩
  · exact ⟨nofun, nofun, nofun, nofun⟩

/-- The coroutine that the session stands for is resumed, other than from the queues. -/
theorem History.resumePayload (h : History s) (hidle : s.wakeupQueue = []) (hσ : σ ≤ s.sessions)
    (msg : Msg) : History (s.resumeSession c σ (.payload msg) n) := by
  have hrecord : History (s.record (if (s.status c).awaits σ (.payload msg) then
      .resumed σ (.payload msg) else .misresumed σ)) := by
    refine h.mono [_] rfl ?_ (fun c σ hσ => Or.inl hσ) le_rfl
      (fun token hmem σ hget => ⟨hmem, hget⟩)
      (fun σ hσ => hσ) ?_
    · intro e he
      obtain rfl := List.mem_singleton.mp he
      split <;> trivial
    · intro σ' how he
      have := List.mem_singleton.mp he
      split at this
      · cases this
        exact hσ
      · cases this
  refine hrecord.resume fun token hmem => ?_
  change token ∈ s.wakeupQueue at hmem
  rw [hidle] at hmem
  cases hmem

/-- A change that leaves the log alone, and the queues. -/
theorem History.control (h : History s) (control : Control) (succ : Bool) :
    History { s with control := control, succ := succ } :=
  { h with }

theorem Drained.dispatchResponse (h : Drained s) (hidle : s.control = .idle) (msg : Msg) :
    Drained (s.dispatchResponse σ msg) := by
  obtain ⟨hwakeup, herror⟩ := h.queues.idle hidle
  have hqueue : s.Unqueued σ := by
    intro c _ σ' hσ'
    rw [herror] at hσ'
    cases hσ'
  have hrecord : History (s.begin.record (.responded σ msg)) := by
    refine h.history.mono [_] rfl ?_ (fun c σ hσ => Or.inl hσ) le_rfl
      (fun token hmem σ hget => ⟨hmem, hget⟩) (fun σ hσ => hσ) ?_
    · intro e he
      obtain rfl := List.mem_singleton.mp he
      trivial
    · intro σ' how he
      cases List.mem_singleton.mp he
  refine ⟨h.tables.dispatchResponse hidle hqueue msg, ?_, ?_⟩
  · unfold Scheduler.dispatchResponse
    dsimp only
    split
    · exact .empty hwakeup herror
    · exact .empty hwakeup herror
    · exact Queues.resume fun _ => ⟨hwakeup, herror⟩
  · unfold Scheduler.dispatchResponse
    dsimp only
    split
    · exact { hrecord with }
    · exact { hrecord with }
    · rename_i co hco
      have hentry : History ((s.begin.record (.responded σ msg)).setEntry σ none) :=
        { hrecord with }
      refine hentry.resumePayload hwakeup ?_ msg
      by_contra hlt
      have hnone := h.tables.fresh σ (not_le.mp hlt)
      exact absurd (hnone.symm.trans hco) nofun

/-! ## New coroutines -/

theorem History.coCreate (h : History s) (ht : Tables s none) {timer : Option Session}
    {reuse : Option Co} (hcreate : s.coCreate timer reuse = some (c, s')) :
    History s' ∧ s'.wakeupQueue = s.wakeupQueue ∧ s'.errorQueue = s.errorQueue ∧
      s'.control = s.control ∧ s'.sleepSession = s.sleepSession ∧ s'.log = s.log ∧
      s'.sessions = s.sessions := by
  obtain ⟨st, pool, born, rfl, hst, -⟩ := coCreate_spec ht hcreate
  have hnone : st.session? = none := by
    rcases hst with ⟨rfl, -⟩ | rfl
    all_goals rfl
  refine ⟨?_, rfl, rfl, rfl, rfl, rfl, rfl⟩
  exact h.mono [] (List.append_nil _).symm nofun
    (fun c' σ hσ => Or.inl (session?_update hnone hσ)) le_rfl
    (fun token hmem σ hget => ⟨hmem, hget⟩) (fun σ hσ => hσ) nofun

theorem History.fork (h : History s) (ht : Tables s none) {reuse : Option Co}
    (hfork : s.fork reuse = some s') :
    History s' ∧ s'.control = s.control ∧ s'.forkQueue ≠ [] := by
  obtain ⟨⟨c, s₁⟩, hcreate, rfl⟩ := Option.map_eq_some_iff.mp hfork
  obtain ⟨h₁, -, -, hcontrol, -⟩ := h.coCreate ht hcreate
  exact ⟨{ h₁ with }, hcontrol, List.append_ne_nil_of_right_ne_nil _ (List.cons_ne_nil _ _)⟩

theorem History.timeout (h : History s) (ht : Tables s none) {reuse : Option Co}
    (htimeout : s.timeout reuse = some s') : History s' ∧ s'.control = s.control := by
  obtain ⟨⟨c, s₁⟩, hcreate, rfl⟩ := Option.map_eq_some_iff.mp htimeout
  have hnew : History s.newSession :=
    { h with future := fun σ how hσ => h.future σ how (Nat.lt_of_succ_lt hσ) }
  obtain ⟨h₁, -, -, hcontrol, -⟩ := hnew.coCreate ht.newSession hcreate
  exact ⟨{ h₁ with }, hcontrol⟩

/-! ## The coroutine that runs -/

theorem History.wakeup (h : History s) (token : Token) : History (s.wakeup token) := by
  unfold Scheduler.wakeup
  split
  · rename_i σ hσ
    have hcount : ∀ σ' how, (s.log ++ [Event.woken σ]).count (.resumed σ' how) =
        s.log.count (.resumed σ' how) := by
      intro σ' how
      rw [List.count_append, List.count_singleton]
      exact add_zero _
    have hmem : ∀ σ' how, Event.resumed σ' how ∈ s.log ++ [Event.woken σ] ↔
        Event.resumed σ' how ∈ s.log := by
      intro σ' how
      simp
    constructor
    · intro σ' hσ'
      rw [hcount]
      rcases List.mem_append.mp hσ' with hold | hnew
      · refine (h.woken σ' hold).imp_left fun ⟨token', hmem', hget⟩ => ?_
        exact ⟨token', List.mem_append_left _ hmem', hget⟩
      · cases List.mem_singleton.mp hnew
        exact Or.inl ⟨token, List.mem_append_right _ (List.mem_singleton_self _), hσ⟩
    · intro σ' hσ'
      rw [hcount]
      refine h.failed σ' ?_
      simpa using hσ'
    · intro c σ' hσ'
      rw [hmem]
      exact h.asleep c σ' hσ'
    · intro c σ' hσ'
      rw [hmem]
      exact h.calling c σ' hσ'
    · intro σ' how hσ'
      rw [hmem]
      exact h.future σ' how hσ'
  · exact h

/-- The coroutine that runs waits for a new session. -/
theorem session?_block {st : Status} (hst : st.session? = some (s.sessions + 1)) {c' : Co}
    (hσ : (update s.status c st c').session? = some σ) :
    (s.status c').session? = some σ ∨ s.sessions < σ := by
  by_cases heq : c' = c
  · rw [heq, update_self, hst] at hσ
    cases hσ
    exact Or.inr (Nat.lt_succ_self _)
  · rw [update_of_ne heq] at hσ
    exact Or.inl hσ

theorem History.suspendSleep (h : History s) {token : Token} {status : Session → Status}
    (hstatus : ∀ σ, (status σ).session? = some σ) :
    History (s.suspendSleep c n token status) := by
  unfold Scheduler.suspendSleep
  dsimp only
  split
  · exact { h with future := fun σ how hσ => h.future σ how (Nat.lt_of_succ_lt hσ) }
  · rename_i hnone
    change s.sleepSession.get token = none at hnone
    refine h.mono [] (List.append_nil _).symm nofun
      (fun c' σ hσ => session?_block (hstatus _) hσ) (Nat.le_succ _)
      (fun token' hmem σ hget => ⟨hmem, ?_⟩) (fun σ hσ => hσ) nofun
    show (s.sleepSession.set token _).get token' = some σ
    have hne : token' ≠ token := by
      rintro rfl
      rw [hnone] at hget
      cases hget
    rw [Table.get_set_of_ne hne]
    exact hget

theorem suspendSleep_busy {token : Token} {status : Session → Status}
    (hbusy : s.control.Busy) : (s.suspendSleep c n token status).control.Busy := by
  unfold Scheduler.suspendSleep
  dsimp only
  split
  · exact hbusy
  · trivial

theorem History.call (h : History s) (addr : Address) : History (s.call c n addr) := by
  refine h.mono [.called (s.sessions + 1)] rfl ?_ (fun c' σ hσ => session?_block rfl hσ)
    (Nat.le_succ _) (fun token hmem σ hget => ⟨hmem, hget⟩) (fun σ hσ => hσ) ?_
  · intro e he
    obtain rfl := List.mem_singleton.mp he
    trivial
  · intro σ how he
    cases List.mem_singleton.mp he

theorem History.queueErrors (h : History s) {session : Session} {source : Address}
    {order : List Session} (hqueue : s.queueErrors session source order = some s') :
    History s' := by
  obtain ⟨new, -, -, rfl⟩ := queueErrors_spec hqueue
  have hcount : ∀ σ' how, (s.log ++ new.map Event.queued).count (.resumed σ' how) =
      s.log.count (.resumed σ' how) := by
    intro σ' how
    have hnot : Event.resumed σ' how ∉ new.map Event.queued := by simp
    rw [List.count_append, List.count_eq_zero_of_not_mem hnot, add_zero]
  have hmem : ∀ σ' how, Event.resumed σ' how ∈ s.log ++ new.map Event.queued ↔
      Event.resumed σ' how ∈ s.log := by
    intro σ' how
    simp
  constructor
  · intro σ hσ
    rw [hcount]
    refine h.woken σ ?_
    simpa using hσ
  · intro σ hσ
    rw [hcount]
    rcases List.mem_append.mp hσ with hold | hnew
    · exact (h.failed σ hold).imp_left fun hmem => List.mem_append_left _ hmem
    · obtain ⟨σ', hσ', heq⟩ := List.mem_map.mp hnew
      cases heq
      exact Or.inl (List.mem_append_right _ hσ')
  · intro c σ hσ
    rw [hmem]
    exact h.asleep c σ hσ
  · intro c σ hσ
    rw [hmem]
    exact h.calling c σ hσ
  · intro σ how hσ
    rw [hmem]
    exact h.future σ how hσ

/-- A coroutine that stops keeps the history. -/
theorem History.setStatus (h : History s) (st : Status) (hst : st.session? = none) (c : Co) :
    History (s.setStatus c st) :=
  h.mono [] (List.append_nil _).symm nofun (fun _ _ hσ => Or.inl (session?_update hst hσ)) le_rfl
    (fun _ hmem _ hget => ⟨hmem, hget⟩) (fun _ hσ => hσ) nofun

theorem History.recycle (h : History s) : History (s.recycle c n) := by
  have hstatus := h.setStatus .pooled rfl c
  exact { hstatus with }

theorem History.die (h : History s) : History (s.die c) := by
  have hstatus := h.setStatus .dead rfl c
  exact { hstatus with }

/-! ## The main thread -/

/-- The coroutine that waits for a session is resumed because of the queue it was in. -/
theorem History.serve (h : History s) {how : How} (hlog : s'.log = s.log ++ [.resumed σ how])
    (hc : (s.status c).session? = some σ)
    (hstatus : ∀ c' σ', (s'.status c').session? = some σ' →
      (s.status c').session? = some σ' ∧ σ' ≠ σ)
    (hsessions : s'.sessions = s.sessions) (hold : σ ≤ s.sessions)
    (hwakeup : ∀ token ∈ s.wakeupQueue, ∀ σ', s.sleepSession.get token = some σ' →
      how = .brk ∧ σ' = σ ∨ token ∈ s'.wakeupQueue ∧ s'.sleepSession.get token = some σ')
    (herror : ∀ σ' ∈ s.errorQueue, how = .failure ∧ σ' = σ ∨ σ' ∈ s'.errorQueue) :
    History s' := by
  have hother : ∀ σ' how', σ' ≠ σ → (s'.log).count (.resumed σ' how') =
      s.log.count (.resumed σ' how') := by
    intro σ' how' hne
    have hnot : Event.resumed σ' how' ∉ [Event.resumed σ how] := by
      intro hmem
      cases List.mem_singleton.mp hmem
      exact hne rfl
    rw [hlog, List.count_append, List.count_eq_zero_of_not_mem hnot, add_zero]
  -- the events of the session itself are the one that is new
  have hself : (how = .brk ∨ how = .failure) → s'.log.count (.resumed σ how) = 1 := by
    intro hhow
    have hnone : Event.resumed σ how ∉ s.log := by
      rcases hhow with rfl | rfl
      · exact h.asleep c σ hc
      · exact h.calling c σ hc
    rw [hlog, List.count_append, List.count_eq_zero_of_not_mem hnone, List.count_singleton_self]
  have hmem : ∀ σ' how', σ' ≠ σ → (.resumed σ' how' ∈ s'.log ↔ .resumed σ' how' ∈ s.log) := by
    intro σ' how' hne
    rw [← List.count_pos_iff, ← List.count_pos_iff, hother σ' how' hne]
  have hplain : ∀ σ', .woken σ' ∈ s'.log ∨ .queued σ' ∈ s'.log →
      .woken σ' ∈ s.log ∨ .queued σ' ∈ s.log := by
    intro σ' hor
    rw [hlog] at hor
    simpa using hor
  constructor
  · intro σ' hσ'
    rw [hlog] at hσ'
    rcases h.woken σ' (by simpa using hσ') with ⟨token, hmem', hget⟩ | hcount
    · rcases hwakeup token hmem' σ' hget with ⟨rfl, rfl⟩ | hleft
      · exact Or.inr (hself (Or.inl rfl))
      · exact Or.inl ⟨token, hleft⟩
    · have hne : σ' ≠ σ := by
        rintro rfl
        rw [List.count_eq_zero_of_not_mem (h.asleep c σ' hc)] at hcount
        cases hcount
      exact Or.inr ((hother σ' .brk hne).trans hcount)
  · intro σ' hσ'
    rw [hlog] at hσ'
    rcases h.failed σ' (by simpa using hσ') with hqueue | hcount
    · rcases herror σ' hqueue with ⟨rfl, rfl⟩ | hleft
      · exact Or.inr (hself (Or.inr rfl))
      · exact Or.inl hleft
    · have hne : σ' ≠ σ := by
        rintro rfl
        rw [List.count_eq_zero_of_not_mem (h.calling c σ' hc)] at hcount
        cases hcount
      exact Or.inr ((hother σ' .failure hne).trans hcount)
  · intro c' σ' hσ'
    obtain ⟨hσ', hne⟩ := hstatus c' σ' hσ'
    rw [hmem σ' .brk hne]
    exact h.asleep c' σ' hσ'
  · intro c' σ' hσ'
    obtain ⟨hσ', hne⟩ := hstatus c' σ' hσ'
    rw [hmem σ' .failure hne]
    exact h.calling c' σ' hσ'
  · intro σ' how' hlt
    rw [hsessions] at hlt
    have hne : σ' ≠ σ := fun heq => absurd hold (not_le.mpr (heq ▸ hlt))
    rw [hmem σ' how' hne]
    exact h.future σ' how' hlt

theorem owner_update (ht : Tables s none) (hc : (s.status c).session? = some σ) {st : Status}
    (hst : st.session? = none) {c' : Co} {σ' : Session}
    (hσ' : (update s.status c st c').session? = some σ') :
    (s.status c').session? = some σ' ∧ σ' ≠ σ := by
  have hne : c' ≠ c := by
    rintro rfl
    rw [update_self, hst] at hσ'
    cases hσ'
  rw [update_of_ne hne] at hσ'
  refine ⟨hσ', ?_⟩
  rintro rfl
  exact hne (ht.owner c' c σ' hσ' hc)

theorem History.dispatchWakeup (h : History s) (ht : Tables s none) :
    History (s.dispatchWakeup n) := by
  cases hqueue : s.wakeupQueue with
  | nil =>
    rw [dispatchWakeup_nil hqueue]
    exact { h with }
  | cons token queue =>
    cases hσ : s.sleepSession.get token with
    | none =>
      rw [dispatchWakeup_stale hqueue hσ]
      refine h.mono [] (List.append_nil _).symm nofun (fun _ _ hσ => Or.inl hσ) le_rfl
        (fun token' hmem σ' hget => ⟨?_, hget⟩) (fun _ hσ => hσ) nofun
      rw [hqueue] at hmem
      refine (List.mem_cons.mp hmem).resolve_left ?_
      rintro rfl
      rw [hσ] at hget
      cases hget
    | some σ =>
      obtain ⟨c, hc, hentry, heq⟩ := dispatchWakeup_token ht hqueue hσ n
      have hsession := session?_of_token? hc
      have hawaits : ((({ s with wakeupQueue := queue } : Scheduler).setEntry σ
          (some .brk)).status c).awaits σ .brk := awaits_of_token? hc
      rw [heq, resumeSession_of_awaits hawaits]
      obtain ⟨st, control, entries, sleeps, watches, hresume, hst, -, hsleeps⟩ := resume_spec
        ((({ s with wakeupQueue := queue } : Scheduler).setEntry σ (some .brk)).record
          (.resumed σ .brk)) c (n + 1)
      rw [hresume]
      refine h.serve rfl hsession (fun c' σ' hσ' => owner_update ht hsession hst hσ') rfl
        (ht.old c σ hsession) (fun token' hmem σ' hget => ?_) fun σ' hσ' => Or.inr hσ'
      by_cases htoken : token' = token
      · rw [htoken, hσ] at hget
        exact Or.inl ⟨rfl, (Option.some.inj hget).symm⟩
      · rw [hqueue] at hmem
        refine Or.inr ⟨(List.mem_cons.mp hmem).resolve_left htoken, ?_⟩
        refine (hsleeps token' σ').mpr ⟨hget, fun σ'' heq => htoken ?_⟩
        change (s.status c).token? = _ at heq
        rw [hc] at heq
        cases heq
        rfl

theorem Queues.dispatchWakeup (ht : Tables s none) (hstale : ¬ s.Stale) :
    Queues (s.dispatchWakeup n) := by
  cases hqueue : s.wakeupQueue with
  | nil =>
    rw [dispatchWakeup_nil hqueue]
    refine ⟨nofun, nofun, fun k _ hne => absurd hqueue hne, fun k hk _ => Or.inl ?_⟩
    cases hk
    exact Nat.succ_pos n
  | cons token queue =>
    cases hσ : s.sleepSession.get token with
    | none =>
      rw [dispatchWakeup_stale hqueue hσ]
      refine ⟨nofun, nofun, fun k hk hne => ?_, fun k hk _ => Or.inl ?_⟩
      · cases hk
        -- something else is left to be resumed
        unfold Scheduler.Stale at hstale
        rw [hqueue] at hstale
        by_cases herror : s.errorQueue = []
        · by_cases hfork : s.forkQueue = []
          · exact absurd ⟨hσ, hne, herror, hfork⟩ hstale
          · exact Or.inr hfork
        · exact Or.inl ⟨herror, Nat.succ_pos n⟩
      · cases hk
        exact Nat.succ_pos n
    | some σ =>
      obtain ⟨c, hc, -, heq⟩ := dispatchWakeup_token ht hqueue hσ n
      rw [heq]
      refine Queues.resume fun hpooled => ?_
      change s.status c = .pooled at hpooled
      rw [hpooled] at hc
      cases hc

theorem History.dispatchErrorQueue (h : History s) (ht : Tables s none) :
    History (s.dispatchErrorQueue n) := by
  cases n with
  | zero => exact { h with }
  | succ n =>
    cases hqueue : s.errorQueue with
    | nil =>
      rw [dispatchErrorQueue_nil hqueue]
      exact { h with }
    | cons σ queue =>
      obtain ⟨c, hc, hentry, heq⟩ := dispatchErrorQueue_session ht hqueue n
      have hsession : (s.status c).session? = some σ := by
        rw [hc]
        rfl
      have hawaits : ((({ s with errorQueue := queue } : Scheduler).setEntry σ none).status
          c).awaits σ .failure := hc
      rw [heq, resumeSession_of_awaits hawaits]
      obtain ⟨st, control, entries, sleeps, watches, hresume, hst, -, hsleeps⟩ := resume_spec
        ((({ s with errorQueue := queue } : Scheduler).setEntry σ none).record
          (.resumed σ .failure)) c n
      rw [hresume]
      refine h.serve rfl hsession (fun c' σ' hσ' => owner_update ht hsession hst hσ') rfl
        (ht.old c σ hsession) (fun token hmem σ' hget => Or.inr ⟨hmem, ?_⟩) fun σ' hσ' => ?_
      · refine (hsleeps token σ').mpr ⟨hget, fun σ'' heq => ?_⟩
        change (s.status c).token? = _ at heq
        rw [hc] at heq
        cases heq
      · rw [hqueue] at hσ'
        exact (List.mem_cons.mp hσ').imp_left fun heq => ⟨rfl, heq⟩

theorem Queues.dispatchErrorQueue (h : Queues s) (ht : Tables s none)
    (hcontrol : s.control = .errors n) : Queues (s.dispatchErrorQueue n) := by
  cases n with
  | zero =>
    refine ⟨nofun, fun _ hfork => ?_, nofun, nofun⟩
    constructor
    · by_contra hne
      rcases h.wakeups 0 hcontrol hne with ⟨-, hpos⟩ | hne
      · exact absurd hpos (lt_irrefl 0)
      · exact hne hfork
    · by_contra hne
      rcases h.errors 0 hcontrol hne with hpos | hne
      · exact absurd hpos (lt_irrefl 0)
      · exact hne hfork
  | succ n =>
    cases hqueue : s.errorQueue with
    | nil =>
      rw [dispatchErrorQueue_nil hqueue]
      refine ⟨nofun, nofun, fun k _ hne => ?_, fun k _ hne => absurd hqueue hne⟩
      rcases h.wakeups (n + 1) hcontrol hne with ⟨hne, -⟩ | hne
      · exact absurd hqueue hne
      · exact Or.inr hne
    | cons σ queue =>
      obtain ⟨c, hc, -, heq⟩ := dispatchErrorQueue_session ht hqueue n
      rw [heq]
      refine Queues.resume fun hpooled => ?_
      change s.status c = .pooled at hpooled
      rw [hpooled] at hc
      cases hc

/-! ## Runs -/

theorem Drained.steady {a : Act} (h : Drained s) (hm : s.Moves a s') (hok : s.Orderly a) :
    s.Steady a := by
  cases hm with
  | response hidle =>
    intro c _ σ' hσ'
    rw [(h.queues.idle hidle).2] at hσ'
    cases hσ'
  | error hidle =>
    intro σ' hσ'
    rw [(h.queues.idle hidle).2] at hσ'
    cases hσ'
  | errorDead hidle =>
    intro σ' hσ'
    rw [(h.queues.idle hidle).2] at hσ'
    cases hσ'
  | term => exact hok
  | answers =>
    cases a
    all_goals trivial
  | _ => trivial

/-- A step that meets the conditions keeps the queues in order. -/
theorem Drained.moves {a : Act} (h : Drained s) (hm : s.Moves a s') (hok : s.Orderly a) :
    s'.exited = true ∨ Drained s' := by
  have ht := h.tables.moves hm (h.steady hm hok)
  have hbusy : ∀ {co pending}, s.control = .running co pending → s.control.Busy := fun hc => by
    rw [hc]
    trivial
  cases hm with
  | response hidle => exact Or.inr (h.dispatchResponse hidle _)
  | error hidle hcreate hlive hqueue =>
    have hbegin : History s.begin := { h.history with }
    have hbegin' : Tables s.begin none := { h.tables with }
    obtain ⟨h₁, -⟩ := hbegin.coCreate hbegin' hcreate
    exact Or.inr ⟨ht, .busy trivial, (h₁.queueErrors hqueue).recycle⟩
  | errorDead hidle hcreate hdead =>
    have hbegin : History s.begin := { h.history with }
    have hbegin' : Tables s.begin none := { h.tables with }
    obtain ⟨h₁, -⟩ := hbegin.coCreate hbegin' hcreate
    exact Or.inr ⟨ht, .busy trivial, { h₁ with }⟩
  | request hidle hcreate =>
    have hbegin : History s.begin := { h.history with }
    have hbegin' : Tables s.begin none := { h.tables with }
    obtain ⟨h₁, hwakeup, herror, -⟩ := hbegin.coCreate hbegin' hcreate
    obtain ⟨hempty, hempty'⟩ := h.queues.idle hidle
    rw [show s.begin.wakeupQueue = s.wakeupQueue from rfl, hempty] at hwakeup
    rw [show s.begin.errorQueue = s.errorQueue from rfl, hempty'] at herror
    refine Or.inr ⟨ht, ?_, ?_⟩
    · split
      · exact Queues.resume fun _ => ⟨hwakeup, herror⟩
      · exact .empty hwakeup herror
    · split
      · refine h₁.resume fun token hmem => ?_
        rw [hwakeup] at hmem
        cases hmem
      · exact { h₁ with }
  | unknown hidle =>
    obtain ⟨hempty, hempty'⟩ := h.queues.idle hidle
    refine Or.inr ⟨ht, ?_, ?_⟩
    all_goals split
    · exact .empty hempty hempty'
    · exact .empty hempty hempty'
    · exact { h.history with }
    · exact { h.history with }
  | answers => exact Or.inr h
  | wakeup hc =>
    refine Or.inr ⟨ht, .busy ?_, h.history.wakeup _⟩
    unfold Scheduler.wakeup
    split
    · exact hbusy hc
    · exact hbusy hc
  | fork hc hfork =>
    obtain ⟨h₁, hcontrol, -⟩ := h.history.fork h.tables hfork
    exact Or.inr ⟨ht, .busy (hcontrol ▸ hbusy hc), h₁⟩
  | timeout hc htimeout =>
    obtain ⟨h₁, hcontrol⟩ := h.history.timeout h.tables htimeout
    exact Or.inr ⟨ht, .busy (hcontrol ▸ hbusy hc), h₁⟩
  | sleep hc =>
    exact Or.inr ⟨ht, .busy (suspendSleep_busy (hbusy hc)), h.history.suspendSleep fun _ => rfl⟩
  | wait hc =>
    exact Or.inr ⟨ht, .busy (suspendSleep_busy (hbusy hc)), h.history.suspendSleep fun _ => rfl⟩
  | call hc => exact Or.inr ⟨ht, .busy trivial, h.history.call _⟩
  | term hc hqueue =>
    refine Or.inr ⟨ht, .busy ?_, h.history.queueErrors hqueue⟩
    obtain ⟨new, -, -, rfl⟩ := queueErrors_spec hqueue
    exact hbusy hc
  | exit => exact Or.inl rfl
  | finish => exact Or.inr ⟨ht, .busy trivial, h.history.recycle⟩
  | raise => exact Or.inr ⟨ht, .busy trivial, h.history.die⟩
  | dispatchWakeup hc =>
    exact Or.inr ⟨ht, .dispatchWakeup h.tables hok, h.history.dispatchWakeup h.tables⟩
  | dispatchErrorQueue hc =>
    exact Or.inr ⟨ht, h.queues.dispatchErrorQueue h.tables hc,
      h.history.dispatchErrorQueue h.tables⟩
  | crash hc hfork =>
    -- the error has forked a coroutine, which goes on with the queues
    obtain ⟨h₁, -, hne⟩ := h.history.fork h.tables hfork
    exact Or.inr ⟨ht, ⟨nofun, fun _ heq => absurd heq hne, nofun, nofun⟩, { h₁ with }⟩
  | @nextFork co hc hmem =>
    have herase : History { s with forkQueue := s.forkQueue.erase co } := { h.history with }
    have hst := h.tables.forked co hmem
    refine Or.inr ⟨ht, Queues.resume fun hpooled => ?_, herase.resume fun token _ σ htoken => ?_⟩
    · change s.status co = .pooled at hpooled
      rw [hpooled] at hst
      simp at hst
    · change (s.status co).token? = _ at htoken
      rcases hst with heq | heq
      all_goals
        rw [heq] at htoken
        cases htoken
  | leave hc hnone =>
    obtain ⟨hempty, hempty'⟩ := h.queues.forks hc hnone
    exact Or.inr ⟨ht, .empty hempty hempty', { h.history with }⟩

end

end SkynetEureka.Coroutines
