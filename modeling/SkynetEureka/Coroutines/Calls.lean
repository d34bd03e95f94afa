import SkynetEureka.Coroutines.Tables

/-!
# Calls and their answers

A coroutine in `skynet.call` is resumed once, with the message of a RESPONSE for its own session or
with a failure, and nothing is resumed that does not wait (`calls_answered`). Three things must not
happen: that a session which is in `error_queue` comes into it again, that it gets a RESPONSE, and
that a coroutine sleeps with a token that is taken. The error of the last one leaves the new session
in `session_id_coroutine`.
-/

namespace SkynetEureka.Coroutines

open Lib Function

/-- No session is resumed from the error queue that does not wait any more, and the assertion of
`suspend_sleep` does not fail. After a message `dispatch_message` has emptied the queue, unless the
service has called `skynet.exit`. -/
def Scheduler.Calm (s : Scheduler) : Act → Prop
  | .sleep token | .wait token => s.sleepSession.get token = none
  | .term service _ => s.FailsOnce 0 service
  | .response σ _ => s.exited = true → σ ∉ s.errorQueue
  | .error session source _ _ => s.exited = true → s.FailsOnce session source
  | _ => True

instance (s : Scheduler) (a : Act) : Decidable (s.Calm a) :=
  match a with
  | .sleep token | .wait token => inferInstanceAs (Decidable (s.sleepSession.get token = none))
  | .term service _ => inferInstanceAs (Decidable (s.FailsOnce 0 service))
  | .response σ _ => inferInstanceAs (Decidable (s.exited = true → σ ∉ s.errorQueue))
  | .error session source _ _ =>
    inferInstanceAs (Decidable (s.exited = true → s.FailsOnce session source))
  | .request .. | .unknown .. | .wakeup _ | .fork _ | .timeout _ | .call _ | .ret | .ignoreret
  | .newResponse | .respond .. | .packed | .packFails | .exit | .finish | .raise | .dispatchWakeup
  | .dispatchErrorQueue | .crash _ | .nextFork _ | .leave => isTrue trivial

/-- The session through which the coroutine is resumed. -/
def Status.waits? : Status → Option Session
  | .sleeping σ _ | .waiting σ _ | .calling σ | .ready (some σ) => some σ
  | _ => none

/-- `session_id_coroutine`, the pool and the fork queue have what they should. -/
structure Aims (s : Scheduler) : Prop where
  entry : ∀ σ c, s.sessionIdCoroutine.get σ = some (.co c) → (s.status c).waits? = some σ
  old : ∀ c σ, (s.status c).waits? = some σ → σ ≤ s.sessions
  sound : ∀ c, s.status c ≠ .spoiled
  pool : ∀ c ∈ s.coroutinePool, s.status c = .pooled
  forked : ∀ c ∈ s.forkQueue, s.status c = .ready none

/-- The coroutine that waits for the session is resumed. -/
def Event.resumes (σ : Session) : Event → Bool
  | .resumed σ' _ => σ' = σ
  | _ => false

/-- What the log says about the calls. -/
structure Answered (s : Scheduler) : Prop where
  right : ∀ σ, .misresumed σ ∉ s.log
  called : ∀ c σ, s.status c = .calling σ → .called σ ∈ s.log
  kind : ∀ c σ, .called σ ∈ s.log → (s.status c).waits? = some σ → s.status c = .calling σ
  once : ∀ σ, .called σ ∈ s.log →
    (∃ c, s.status c = .calling σ) ∧ s.log.countP (Event.resumes σ) = 0 ∨
    (∀ c, s.status c ≠ .calling σ) ∧ s.log.countP (Event.resumes σ) = 1 ∧
      .resumed σ .brk ∉ s.log
  future : ∀ σ, s.sessions < σ → .called σ ∉ s.log ∧ s.log.countP (Event.resumes σ) = 0
  own : ∀ σ msg, .resumed σ (.payload msg) ∈ s.log → .responded σ msg ∈ s.log
  failed : ∀ σ, .resumed σ .failure ∈ s.log → .queued σ ∈ s.log
  queue : ∀ σ ∈ s.errorQueue, .queued σ ∈ s.log
  served : ∀ σ, .queued σ ∈ s.log → σ ∈ s.errorQueue ∨ .resumed σ .failure ∈ s.log

/-- Where `dispatch_message` stands, the error queue is empty or goes on to be served. -/
structure Served (s : Scheduler) : Prop where
  idle : s.control = .idle → s.errorQueue = []
  forks : s.control = .forks → s.forkQueue = [] → s.errorQueue = []
  errors : ∀ n, s.control = .errors n → s.errorQueue ≠ [] → 0 < n ∨ s.forkQueue ≠ []

/-- The four together. -/
structure Honest (s : Scheduler) : Prop where
  tables : Tables s none
  aims : Aims s
  answered : Answered s
  served : s.exited = true ∨ Served s

section

variable {s s' : Scheduler} {c c' co : Co} {n : ℕ} {σ : Session} {st : Status}
  {timer : Option Session} {reuse : Option Co}

/-! ## Who waits -/

theorem awaits_payload {msg : Msg} : st.awaits σ (.payload msg) ↔ st.waits? = some σ := by
  cases st with
  | ready timer =>
    cases timer with
    | none => exact ⟨nofun, nofun⟩
    | some σ' => exact Option.some_inj.symm
  | sleeping σ' token => exact Option.some_inj.symm
  | waiting σ' token => exact Option.some_inj.symm
  | calling σ' => exact Option.some_inj.symm
  | _ => exact ⟨nofun, nofun⟩

theorem waits?_of_session? (h : st.session? = some σ) : st.waits? = some σ := by
  cases st with
  | sleeping σ' token => exact h
  | waiting σ' token => exact h
  | calling σ' => exact h
  | _ => cases h

/-- A coroutine that waits for a session, or for its arguments, runs when it is resumed. -/
theorem resume_of_waits (h : (∃ σ, (s.status c).waits? = some σ) ∨ s.status c = .ready none) :
    s.resume c n =
      { (s.unblock (s.status c)).setStatus c .running with control := .running c n } := by
  apply resume_live
  all_goals
    intro heq
    rw [heq] at h
    rcases h with ⟨σ, hσ⟩ | hst
    · cases hσ
    · cases hst

theorem waits?_update (hst : st.waits? = none) (hσ : (update s.status c st c').waits? = some σ) :
    (s.status c').waits? = some σ := by
  by_cases heq : c' = c
  · rw [heq, update_self, hst] at hσ
    cases hσ
  · rw [update_of_ne heq] at hσ
    exact hσ

theorem calling_update (hold : ∀ σ, s.status c ≠ .calling σ) (hnew : ∀ σ, st ≠ .calling σ) :
    update s.status c st c' = .calling σ ↔ s.status c' = .calling σ := by
  by_cases heq : c' = c
  · rw [heq, update_self]
    exact ⟨fun h => absurd h (hnew σ), fun h => absurd h (hold σ)⟩
  · rw [update_of_ne heq]

/-! ## What the tables aim at -/

/-- Only the coroutine `c` changes. -/
theorem Aims.change (h : Aims s) (c : Co) (st : Status)
    (hstatus : s'.status = update s.status c st) (hst : st ≠ .spoiled)
    (hold : ∀ σ, st.waits? = some σ → σ ≤ s'.sessions) (hsessions : s.sessions ≤ s'.sessions)
    (hentry : ∀ σ c', s'.sessionIdCoroutine.get σ = some (.co c') →
      c' ≠ c ∧ s.sessionIdCoroutine.get σ = some (.co c') ∨ c' = c ∧ st.waits? = some σ)
    (hpool : ∀ c' ∈ s'.coroutinePool, c' ≠ c ∧ c' ∈ s.coroutinePool ∨ c' = c ∧ st = .pooled)
    (hfork : ∀ c' ∈ s'.forkQueue, c' ≠ c ∧ c' ∈ s.forkQueue ∨ c' = c ∧ st = .ready none) :
    Aims s' := by
  constructor
  · intro σ c' hσ
    rw [hstatus]
    rcases hentry σ c' hσ with ⟨hne, hold⟩ | ⟨rfl, hnew⟩
    · rw [update_of_ne hne]
      exact h.entry σ c' hold
    · rw [update_self]
      exact hnew
  · intro c' σ hσ
    rw [hstatus] at hσ
    by_cases heq : c' = c
    · rw [heq, update_self] at hσ
      exact hold σ hσ
    · rw [update_of_ne heq] at hσ
      exact (h.old c' σ hσ).trans hsessions
  · intro c'
    rw [hstatus]
    by_cases heq : c' = c
    · rw [heq, update_self]
      exact hst
    · rw [update_of_ne heq]
      exact h.sound c'
  · intro c' hc'
    rw [hstatus]
    rcases hpool c' hc' with ⟨hne, hold⟩ | ⟨rfl, hnew⟩
    · rw [update_of_ne hne]
      exact h.pool c' hold
    · rw [update_self]
      exact hnew
  · intro c' hc'
    rw [hstatus]
    rcases hfork c' hc' with ⟨hne, hold⟩ | ⟨rfl, hnew⟩
    · rw [update_of_ne hne]
      exact h.forked c' hold
    · rw [update_self]
      exact hnew

/-- An entry is taken away, or does not stand for a coroutine any more. -/
theorem Aims.setEntry (h : Aims s) (σ : Session) (entry : Option Entry)
    (hentry : ∀ c, entry ≠ some (.co c)) : Aims (s.setEntry σ entry) := by
  refine { h with entry := fun σ' c' hσ' => ?_ }
  change (s.sessionIdCoroutine.set σ entry).get σ' = _ at hσ'
  rw [Table.get_set] at hσ'
  split at hσ'
  · exact absurd hσ' (hentry c')
  · exact h.entry σ' c' hσ'

/-- What no session is waited through has no entry. -/
theorem Aims.entry_ne (h : Aims s) (hc : (s.status c).waits? = none)
    (hσ : s.sessionIdCoroutine.get σ = some (.co c')) : c' ≠ c := by
  rintro rfl
  rw [h.entry σ c' hσ] at hc
  cases hc

theorem Aims.pool_ne (h : Aims s) (hc : s.status c ≠ .pooled) (hc' : c' ∈ s.coroutinePool) :
    c' ≠ c := by
  rintro rfl
  exact hc (h.pool c' hc')

theorem Aims.forked_ne (h : Aims s) (hc : s.status c ≠ .ready none) (hc' : c' ∈ s.forkQueue) :
    c' ≠ c := by
  rintro rfl
  exact hc (h.forked c' hc')

/-- The coroutine behind an entry is resumed, and the entry is not there any more. -/
theorem Aims.resume (h : Aims s) (hc : (s.status c).waits? = some σ)
    (hσ : ∀ c', s.sessionIdCoroutine.get σ ≠ some (.co c')) : Aims (s.resume c n) := by
  rw [resume_of_waits (Or.inl ⟨σ, hc⟩), unblock_eq]
  refine h.change c .running rfl nofun nofun le_rfl (fun σ' c' hσ' => Or.inl ?_)
    (fun c' hc' => Or.inl ⟨h.pool_ne ?_ hc', hc'⟩) fun c' hc' => Or.inl ⟨h.forked_ne ?_ hc', hc'⟩
  · have hold := (unblock_sessionIdCoroutine.mp hσ').1
    refine ⟨?_, hold⟩
    rintro rfl
    have heq := h.entry σ' c' hold
    rw [hc] at heq
    cases heq
    exact hσ c' hold
  · intro heq
    rw [heq] at hc
    cases hc
  · intro heq
    rw [heq] at hc
    cases hc

/-- A coroutine that waits for its arguments is resumed. -/
theorem Aims.start (h : Aims s) (hc : s.status c = .ready none) (hfork : c ∉ s.forkQueue) :
    Aims (s.resume c n) := by
  rw [resume_of_waits (Or.inr hc), hc]
  refine h.change c .running rfl nofun nofun le_rfl
    (fun σ' c' hσ' => Or.inl ⟨h.entry_ne ?_ hσ', hσ'⟩)
    (fun c' hc' => Or.inl ⟨h.pool_ne ?_ hc', hc'⟩)
    fun c' hc' => Or.inl ⟨fun heq => hfork (heq ▸ hc'), hc'⟩
  · rw [hc]
    rfl
  · rw [hc]
    exact nofun

theorem Aims.coCreate (h : Aims s) (ht : Tables s none)
    (htimer : ∀ σ, (Status.ready timer).waits? = some σ → σ ≤ s.sessions)
    (hcreate : s.coCreate timer reuse = some (c, s')) :
    Aims s' ∧ s'.status c = .ready timer ∧ c ∉ s'.coroutinePool ∧
      (∀ σ, s.status c ≠ .calling σ) ∧ (s.status c).waits? = none ∧
      s' = { s with
        status := update s.status c (.ready timer), coroutinePool := s'.coroutinePool,
        born := s'.born } := by
  cases reuse with
  | none =>
    cases hcreate
    have hunborn : s.status s.born = .unborn := (ht.born _).mpr le_rfl
    have hpool : s.born ∉ s.coroutinePool := by
      intro hmem
      rw [h.pool _ hmem] at hunborn
      cases hunborn
    refine ⟨?_, update_self .., hpool, ?_, ?_, rfl⟩
    · refine h.change s.born (.ready timer) rfl nofun htimer le_rfl
        (fun σ' c' hσ' => Or.inl ⟨h.entry_ne ?_ hσ', hσ'⟩)
        (fun c' hc' => Or.inl ⟨fun heq => hpool (heq ▸ hc'), hc'⟩)
        fun c' hc' => Or.inl ⟨h.forked_ne ?_ hc', hc'⟩
      · rw [hunborn]
        rfl
      · rw [hunborn]
        exact nofun
    · rw [hunborn]
      exact fun _ => nofun
    · rw [hunborn]
      rfl
  | some co =>
    unfold Scheduler.coCreate at hcreate
    dsimp only at hcreate
    split at hcreate
    · rename_i hmem
      cases hcreate
      have hpooled := h.pool _ hmem
      have hout : c ∉ s.coroutinePool.erase c := ht.poolOnce.not_mem_erase
      rw [if_pos hpooled]
      refine ⟨?_, update_self .., hout, ?_, ?_, rfl⟩
      · refine h.change c (.ready timer) rfl nofun htimer le_rfl
          (fun σ' c' hσ' => Or.inl ⟨h.entry_ne ?_ hσ', hσ'⟩)
          (fun c' hc' => Or.inl ⟨fun heq => hout (heq ▸ hc'), List.mem_of_mem_erase hc'⟩)
          fun c' hc' => Or.inl ⟨h.forked_ne ?_ hc', hc'⟩
        · rw [hpooled]
          rfl
        · rw [hpooled]
          exact nofun
      · rw [hpooled]
        exact fun _ => nofun
      · rw [hpooled]
        rfl
    · cases hcreate

theorem Aims.fork (h : Aims s) (ht : Tables s none) (hfork : s.fork reuse = some s') : Aims s' := by
  obtain ⟨⟨c, s₁⟩, hcreate, rfl⟩ := Option.map_eq_some_iff.mp hfork
  obtain ⟨h₁, hst, -⟩ := h.coCreate ht (fun _ hσ => by cases hσ) hcreate
  refine { h₁ with forked := fun c' hc' => ?_ }
  rcases List.mem_append.mp hc' with hold | hnew
  · exact h₁.forked c' hold
  · obtain rfl := List.mem_singleton.mp hnew
    exact hst

theorem Aims.timeout (h : Aims s) (ht : Tables s none) (htimeout : s.timeout reuse = some s') :
    Aims s' := by
  obtain ⟨⟨c, s₁⟩, hcreate, rfl⟩ := Option.map_eq_some_iff.mp htimeout
  have hnew : Aims s.newSession :=
    { h with old := fun c' σ hσ => (h.old c' σ hσ).trans (Nat.le_succ _) }
  have htimer : ∀ σ, (Status.ready (some (s.sessions + 1))).waits? = some σ →
      σ ≤ s.newSession.sessions := by
    intro σ hσ
    cases hσ
    exact le_rfl
  obtain ⟨h₁, hst, -⟩ := hnew.coCreate ht.newSession htimer hcreate
  refine { h₁ with entry := fun σ c' hσ => ?_ }
  change (s₁.sessionIdCoroutine.set (s.sessions + 1) (some (.co c))).get σ = _ at hσ
  rw [Table.get_set] at hσ
  split at hσ
  · cases hσ
    rename_i heq
    show (s₁.status c).waits? = some σ
    rw [hst, heq]
    rfl
  · exact h₁.entry σ c' hσ

/-- The coroutine that runs waits for a new session. -/
theorem Aims.block (h : Aims s) (hc : s.status c = .running) (st : Status)
    (hst : st.waits? = some (s.sessions + 1)) :
    Aims ((s.newSession.setEntry (s.sessions + 1) (some (.co c))).setStatus c st) := by
  refine h.change c st rfl ?_ (fun σ hσ => ?_) (Nat.le_succ _) (fun σ c' hσ => ?_)
    (fun c' hc' => Or.inl ⟨h.pool_ne ?_ hc', hc'⟩) fun c' hc' => Or.inl ⟨h.forked_ne ?_ hc', hc'⟩
  · rintro rfl
    cases hst
  · rw [hst] at hσ
    cases hσ
    exact le_rfl
  · change (s.sessionIdCoroutine.set (s.sessions + 1) (some (.co c))).get σ = _ at hσ
    rw [Table.get_set] at hσ
    split at hσ
    · cases hσ
      rename_i heq
      exact Or.inr ⟨rfl, by rw [hst, heq]⟩
    · refine Or.inl ⟨h.entry_ne ?_ hσ, hσ⟩
      rw [hc]
      rfl
  · rw [hc]
    exact nofun
  · rw [hc]
    exact nofun

theorem Aims.suspendSleep (h : Aims s) (hc : s.status c = .running) {token : Token}
    (htoken : s.sleepSession.get token = none) {status : Session → Status}
    (hstatus : ∀ σ, (status σ).waits? = some σ) : Aims (s.suspendSleep c n token status) := by
  unfold Scheduler.suspendSleep
  dsimp only
  split
  · rename_i hsome
    exact absurd (htoken.symm.trans hsome) nofun
  · have hblock := h.block hc (status (s.sessions + 1)) (hstatus _)
    exact { hblock with }

/-- The coroutine that runs stops. -/
theorem Aims.stop (h : Aims s) (hc : s.status c = .running) (st : Status) (hst : st ≠ .spoiled)
    (hnone : st.waits? = none) : Aims (s.setStatus c st) := by
  refine h.change c st rfl hst (fun σ hσ => by rw [hnone] at hσ; cases hσ) le_rfl
    (fun σ c' hσ => Or.inl ⟨h.entry_ne ?_ hσ, hσ⟩)
    (fun c' hc' => Or.inl ⟨h.pool_ne ?_ hc', hc'⟩) fun c' hc' => Or.inl ⟨h.forked_ne ?_ hc', hc'⟩
  · rw [hc]
    rfl
  · rw [hc]
    exact nofun
  · rw [hc]
    exact nofun

/-- The main function of the coroutine has returned. -/
theorem Aims.recycle (h : Aims s) (hc : s.status c = .running ∨ s.status c = .ready none)
    (hfork : c ∉ s.forkQueue) : Aims (s.recycle c n) := by
  have hnone : (s.status c).waits? = none := by
    rcases hc with heq | heq
    all_goals
      rw [heq]
      rfl
  refine h.change c .pooled rfl nofun nofun le_rfl (fun σ c' hσ => Or.inl ⟨h.entry_ne hnone hσ, hσ⟩)
    (fun c' hc' => ?_) fun c' hc' => Or.inl ⟨fun heq => hfork (heq ▸ hc'), hc'⟩
  rcases List.mem_append.mp hc' with hold | hnew
  · refine Or.inl ⟨h.pool_ne ?_ hold, hold⟩
    intro heq
    rw [heq] at hc
    rcases hc with heq' | heq'
    · cases heq'
    · cases heq'
  · exact Or.inr ⟨List.mem_singleton.mp hnew, rfl⟩

/-- The coroutine that an entry stood for is resumed. -/
theorem Aims.resumeSession (h : Aims s) (hc : (s.status c).waits? = some σ)
    (hσ : ∀ c', s.sessionIdCoroutine.get σ ≠ some (.co c')) (how : How) :
    Aims (s.resumeSession c σ how n) := by
  have hrecord : Aims (s.record (if (s.status c).awaits σ how then .resumed σ how
      else .misresumed σ)) := { h with }
  exact hrecord.resume hc hσ

theorem Aims.dispatchResponse (h : Aims s) (msg : Msg) : Aims (s.dispatchResponse σ msg) := by
  have hrecord : Aims (s.begin.record (.responded σ msg)) := { h with }
  unfold Scheduler.dispatchResponse
  dsimp only
  split
  · have hentry := hrecord.setEntry σ none nofun
    exact { hentry with }
  · exact { hrecord with }
  · rename_i co hco
    refine (hrecord.setEntry σ none nofun).resumeSession (hrecord.entry σ co hco) ?_ _
    intro c'
    show (s.sessionIdCoroutine.set σ none).get σ ≠ _
    rw [Table.get_set_self]
    exact nofun

theorem Aims.dispatchWakeup (h : Aims s) (ht : Tables s none) : Aims (s.dispatchWakeup n) := by
  cases hqueue : s.wakeupQueue with
  | nil =>
    rw [dispatchWakeup_nil hqueue]
    exact { h with }
  | cons token queue =>
    cases hσ : s.sleepSession.get token with
    | none =>
      rw [dispatchWakeup_stale hqueue hσ]
      exact { h with }
    | some σ =>
      obtain ⟨c, -, hentry, heq⟩ := dispatchWakeup_token ht hqueue hσ n
      rw [heq]
      have hpop : Aims { s with wakeupQueue := queue } := { h with }
      refine (hpop.setEntry σ (some .brk) nofun).resumeSession (h.entry σ c hentry) ?_ _
      intro c'
      show (s.sessionIdCoroutine.set σ (some .brk)).get σ ≠ _
      rw [Table.get_set_self]
      exact nofun

theorem Aims.dispatchErrorQueue (h : Aims s) (ht : Tables s none) :
    Aims (s.dispatchErrorQueue n) := by
  cases n with
  | zero => exact { h with }
  | succ n =>
    cases hqueue : s.errorQueue with
    | nil =>
      rw [dispatchErrorQueue_nil hqueue]
      exact { h with }
    | cons σ queue =>
      obtain ⟨c, -, hentry, heq⟩ := dispatchErrorQueue_session ht hqueue n
      rw [heq]
      have hpop : Aims { s with errorQueue := queue } := { h with }
      refine (hpop.setEntry σ none nofun).resumeSession (h.entry σ c hentry) ?_ _
      intro c'
      show (s.sessionIdCoroutine.set σ none).get σ ≠ _
      rw [Table.get_set_self]
      exact nofun

theorem Aims.nextFork (h : Aims s) (ht : Tables s none) (hc : c ∈ s.forkQueue) :
    Aims (({ s with forkQueue := s.forkQueue.erase c } : Scheduler).resume c n) := by
  have herase : Aims { s with forkQueue := s.forkQueue.erase c } :=
    { h with forked := fun c' hc' => h.forked c' (List.mem_of_mem_erase hc') }
  refine herase.start (h.forked c hc) fun hmem => ?_
  have honce := ht.forkOnce c (h.forked c hc)
  have hcount := List.count_pos_iff.mpr hmem
  rw [List.count_erase_self] at hcount
  omega

/-! ## What the log says -/

/-- An event that is no call, and resumes nothing. -/
def Event.Mute : Event → Prop
  | .called _ | .resumed _ _ | .misresumed _ => False
  | _ => True

theorem countP_mute {events : List Event} (hmute : ∀ e ∈ events, e.Mute) (log : List Event)
    (σ : Session) : (log ++ events).countP (Event.resumes σ) = log.countP (Event.resumes σ) := by
  have hzero : events.countP (Event.resumes σ) = 0 := by
    refine List.countP_eq_zero.mpr fun e he => ?_
    have hnot := hmute e he
    cases e with
    | resumed σ' how => cases hnot
    | _ => exact nofun
  rw [List.countP_append, hzero, add_zero]

theorem mem_mute {events : List Event} (hmute : ∀ e ∈ events, e.Mute) {log : List Event} {e : Event}
    (he : ¬ e.Mute) : e ∈ log ++ events ↔ e ∈ log := by
  rw [List.mem_append]
  exact or_iff_left fun hmem => he (hmute e hmem)

/-- A step by which no coroutine begins or ends a call, and none is resumed. -/
theorem Answered.mute (h : Answered s) (events : List Event) (hlog : s'.log = s.log ++ events)
    (hmute : ∀ e ∈ events, e.Mute)
    (hcalling : ∀ c σ, s'.status c = .calling σ ↔ s.status c = .calling σ)
    (hwaits : ∀ c σ, (s'.status c).waits? = some σ →
      (s.status c).waits? = some σ ∨ s.sessions < σ)
    (hsessions : s.sessions ≤ s'.sessions)
    (hqueue : ∀ σ, σ ∈ s'.errorQueue ↔ σ ∈ s.errorQueue ∨ .queued σ ∈ events) : Answered s' := by
  constructor
  · intro σ
    rw [hlog, mem_mute hmute id]
    exact h.right σ
  · intro c σ hc
    rw [hlog, mem_mute hmute id]
    exact h.called c σ ((hcalling c σ).mp hc)
  · intro c σ hσ hc
    rw [hlog, mem_mute hmute id] at hσ
    rw [hcalling]
    rcases hwaits c σ hc with hold | hnew
    · exact h.kind c σ hσ hold
    · exact absurd hσ (h.future σ hnew).1
  · intro σ hσ
    rw [hlog, mem_mute hmute id] at hσ
    rw [hlog, countP_mute hmute, mem_mute hmute id]
    simp only [ne_eq, hcalling]
    exact h.once σ hσ
  · intro σ hσ
    rw [hlog, countP_mute hmute, mem_mute hmute id]
    exact h.future σ (hsessions.trans_lt hσ)
  · intro σ msg hσ
    rw [hlog, mem_mute hmute id] at hσ
    rw [hlog]
    exact List.mem_append_left _ (h.own σ msg hσ)
  · intro σ hσ
    rw [hlog, mem_mute hmute id] at hσ
    rw [hlog]
    exact List.mem_append_left _ (h.failed σ hσ)
  · intro σ hσ
    rw [hlog]
    rcases (hqueue σ).mp hσ with hold | hnew
    · exact List.mem_append_left _ (h.queue σ hold)
    · exact List.mem_append_right _ hnew
  · intro σ hσ
    rw [hlog, mem_mute hmute id, hqueue]
    rw [hlog] at hσ
    rcases List.mem_append.mp hσ with hold | hnew
    · exact (h.served σ hold).imp_left Or.inl
    · exact Or.inl (Or.inr hnew)

/-- A step without an event, by which only the coroutine `c` changes. -/
theorem Answered.change (h : Answered s) (c : Co) (st : Status) (hlog : s'.log = s.log)
    (hstatus : s'.status = update s.status c st) (hold : ∀ σ, s.status c ≠ .calling σ)
    (hnew : st.waits? = none ∨ st = .ready (some s'.sessions) ∧ s.sessions < s'.sessions)
    (hsessions : s.sessions ≤ s'.sessions) (hqueue : s'.errorQueue = s.errorQueue) :
    Answered s' := by
  have hst : ∀ σ, st ≠ .calling σ := by
    rintro σ rfl
    rcases hnew with heq | ⟨heq, -⟩
    · cases heq
    · cases heq
  refine h.mute [] ?_ nofun (fun c' σ => ?_) (fun c' σ hσ => ?_) hsessions fun σ => ?_
  · rw [hlog, List.append_nil]
  · rw [hstatus]
    exact calling_update hold hst
  · rw [hstatus] at hσ
    rcases hnew with heq | ⟨rfl, hlt⟩
    · exact Or.inl (waits?_update heq hσ)
    · by_cases heq : c' = c
      · rw [heq, update_self] at hσ
        cases hσ
        exact Or.inr hlt
      · rw [update_of_ne heq] at hσ
        exact Or.inl hσ
  · rw [hqueue]
    exact (or_iff_left List.not_mem_nil).symm

/-- The coroutine that waits for the session is resumed. -/
theorem Answered.serve (h : Answered s) (ht : Tables s none) {how : How}
    (hlog : s'.log = s.log ++ [.resumed σ how]) (hc : (s.status c).waits? = some σ)
    (hbrk : how = .brk → ∀ σ', s.status c ≠ .calling σ')
    (hstatus : s'.status = update s.status c .running) (hold : σ ≤ s.sessions)
    (hsessions : s'.sessions = s.sessions)
    (hown : ∀ msg, how = .payload msg → .responded σ msg ∈ s.log)
    (hfailed : how = .failure → .queued σ ∈ s.log)
    (hqueue : ∀ σ', σ' ∈ s'.errorQueue → σ' ∈ s.errorQueue)
    (hserved : ∀ σ' ∈ s.errorQueue, σ' ∈ s'.errorQueue ∨ how = .failure ∧ σ' = σ) :
    Answered s' := by
  have hmem : ∀ e : Event, e ≠ .resumed σ how → (e ∈ s'.log ↔ e ∈ s.log) := by
    intro e hne
    rw [hlog, List.mem_append]
    exact or_iff_left fun hnew => hne (List.mem_singleton.mp hnew)
  have hcount : ∀ σ', s'.log.countP (Event.resumes σ') =
      s.log.countP (Event.resumes σ') + if σ = σ' then 1 else 0 := by
    intro σ'
    rw [hlog, List.countP_append, List.countP_singleton]
    simp [Event.resumes]
  have hcalling : ∀ c' σ', s'.status c' = .calling σ' ↔ c' ≠ c ∧ s.status c' = .calling σ' := by
    intro c' σ'
    rw [hstatus]
    by_cases heq : c' = c
    · rw [heq, update_self]
      exact ⟨nofun, fun hand => absurd rfl hand.1⟩
    · rw [update_of_ne heq]
      exact ⟨fun hc' => ⟨heq, hc'⟩, And.right⟩
  have hkeep : ∀ {e : Event}, e ∈ s.log → e ∈ s'.log := by
    intro e he
    rw [hlog]
    exact List.mem_append_left _ he
  constructor
  · intro σ'
    rw [hmem (.misresumed σ') nofun]
    exact h.right σ'
  · intro c' σ' hc'
    exact hkeep (h.called c' σ' ((hcalling c' σ').mp hc').2)
  · intro c' σ' hσ' hc'
    rw [hmem (.called σ') nofun] at hσ'
    rw [hstatus] at hc'
    refine (hcalling c' σ').mpr ⟨?_, h.kind c' σ' hσ' (waits?_update rfl hc')⟩
    rintro rfl
    rw [update_self] at hc'
    cases hc'
  · intro σ' hσ'
    rw [hmem (.called σ') nofun] at hσ'
    rw [hcount]
    by_cases heq : σ = σ'
    · -- the coroutine was in its call, and nobody else is
      cases heq
      have hcall := h.kind c σ hσ' hc
      rw [if_pos rfl]
      refine Or.inr ⟨fun c' hc' => ?_, ?_, ?_⟩
      · obtain ⟨hne, hc'⟩ := (hcalling c' σ).mp hc'
        refine hne (ht.owner c' c σ ?_ ?_)
        · rw [hc']
          rfl
        · rw [hcall]
          rfl
      · rcases h.once σ hσ' with ⟨-, hzero⟩ | ⟨hnone, -⟩
        · rw [hzero]
        · exact absurd hcall (hnone c)
      · rcases h.once σ hσ' with ⟨-, hzero⟩ | ⟨-, -, hnot⟩
        · rw [hmem _ ?_]
          · intro hin
            exact List.countP_eq_zero.mp hzero _ hin (decide_eq_true rfl)
          · rintro ⟨rfl⟩
            exact hbrk rfl σ hcall
        · rw [hmem _ ?_]
          · exact hnot
          · rintro ⟨rfl⟩
            exact hbrk rfl σ hcall
    · rw [if_neg heq, add_zero, hmem _ fun hnew => heq (Event.resumed.inj hnew).1.symm]
      refine (h.once σ' hσ').imp (And.imp_left ?_) (And.imp_left ?_)
      · rintro ⟨c', hc'⟩
        refine ⟨c', (hcalling c' σ').mpr ⟨?_, hc'⟩⟩
        rintro rfl
        rw [hc'] at hc
        exact heq (Option.some.inj hc).symm
      · intro hnone c' hc'
        exact hnone c' ((hcalling c' σ').mp hc').2
  · intro σ' hσ'
    rw [hsessions] at hσ'
    have hne : σ ≠ σ' := by
      rintro rfl
      exact absurd hold (not_le.mpr hσ')
    rw [hmem (.called σ') nofun, hcount, if_neg hne]
    exact h.future σ' hσ'
  · intro σ' msg hσ'
    by_cases heq : Event.resumed σ' (.payload msg) = .resumed σ how
    · obtain ⟨rfl, hhow⟩ := Event.resumed.inj heq
      exact hkeep (hown msg hhow.symm)
    · exact hkeep (h.own σ' msg ((hmem _ heq).mp hσ'))
  · intro σ' hσ'
    by_cases heq : Event.resumed σ' .failure = .resumed σ how
    · obtain ⟨rfl, hhow⟩ := Event.resumed.inj heq
      exact hkeep (hfailed hhow.symm)
    · exact hkeep (h.failed σ' ((hmem _ heq).mp hσ'))
  · intro σ' hσ'
    exact hkeep (h.queue σ' (hqueue σ' hσ'))
  · intro σ' hσ'
    rw [hmem (.queued σ') nofun] at hσ'
    rcases h.served σ' hσ' with hin | hdone
    · rcases hserved σ' hin with hleft | ⟨rfl, rfl⟩
      · exact Or.inl hleft
      · refine Or.inr ?_
        rw [hlog]
        exact List.mem_append_right _ (List.mem_singleton_self _)
    · exact Or.inr (hkeep hdone)

/-- A call begins. -/
theorem Answered.call (h : Answered s) (ha : Aims s) (hc : s.status c = .running)
    (addr : Address) : Answered (s.call c n addr) := by
  have hkeep : ∀ {e : Event}, e ∈ s.log → e ∈ (s.call c n addr).log := List.mem_append_left _
  have hmem : ∀ e : Event, e ≠ .called (s.sessions + 1) →
      (e ∈ (s.call c n addr).log ↔ e ∈ s.log) := by
    intro e hne
    show e ∈ s.log ++ [_] ↔ _
    rw [List.mem_append]
    exact or_iff_left fun hnew => hne (List.mem_singleton.mp hnew)
  have hcount : ∀ σ, (s.call c n addr).log.countP (Event.resumes σ) =
      s.log.countP (Event.resumes σ) := by
    intro σ
    show (s.log ++ [_]).countP _ = _
    rw [List.countP_append, List.countP_singleton]
    exact add_zero _
  have hself : (s.call c n addr).status c = .calling (s.sessions + 1) := update_self ..
  have hother : ∀ {c'}, c' ≠ c → (s.call c n addr).status c' = s.status c' :=
    fun hne => update_of_ne hne _ _
  have hnew := h.future (s.sessions + 1) (Nat.lt_succ_self _)
  constructor
  · intro σ
    rw [hmem (.misresumed σ) nofun]
    exact h.right σ
  · intro c' σ hc'
    by_cases heq : c' = c
    · rw [heq, hself] at hc'
      cases hc'
      exact List.mem_append_right _ (List.mem_singleton_self _)
    · rw [hother heq] at hc'
      exact hkeep (h.called c' σ hc')
  · intro c' σ hσ hc'
    by_cases heq : c' = c
    · rw [heq, hself] at hc' ⊢
      cases hc'
      rfl
    · rw [hother heq] at hc' ⊢
      by_cases hlast : σ = s.sessions + 1
      · -- nobody waits for a session before it is given out
        rw [hlast] at hc'
        exact absurd (ha.old c' _ hc') (Nat.not_succ_le_self _)
      · refine h.kind c' σ ((hmem _ ?_).mp hσ) hc'
        rintro ⟨⟩
        exact hlast rfl
  · intro σ hσ
    rw [hcount, hmem (.resumed σ .brk) nofun]
    by_cases hlast : σ = s.sessions + 1
    · rw [hlast]
      exact Or.inl ⟨⟨c, hself⟩, hnew.2⟩
    · have hold : .called σ ∈ s.log := (hmem _ fun heq => hlast (Event.called.inj heq)).mp hσ
      refine (h.once σ hold).imp (And.imp_left ?_) (And.imp_left ?_)
      · rintro ⟨c', hc'⟩
        refine ⟨c', ?_⟩
        rw [hother ?_]
        · exact hc'
        · rintro rfl
          rw [hc] at hc'
          cases hc'
      · intro hnone c' hc'
        by_cases heq : c' = c
        · rw [heq, hself] at hc'
          cases hc'
          exact hlast rfl
        · rw [hother heq] at hc'
          exact hnone c' hc'
  · intro σ hσ
    have hlt : s.sessions < σ := Nat.lt_of_succ_lt hσ
    rw [hcount, hmem (.called σ) fun heq => Nat.ne_of_gt hσ (Event.called.inj heq)]
    exact h.future σ hlt
  · intro σ msg hσ
    exact hkeep (h.own σ msg ((hmem (.resumed σ (.payload msg)) nofun).mp hσ))
  · intro σ hσ
    exact hkeep (h.failed σ ((hmem (.resumed σ .failure) nofun).mp hσ))
  · intro σ hσ
    exact hkeep (h.queue σ hσ)
  · intro σ hσ
    exact (h.served σ ((hmem (.queued σ) nofun).mp hσ)).imp_right hkeep

/-- What is not in the log has not happened to the state before either. -/
theorem Answered.record (h : Answered s) {e : Event} (he : e.Mute)
    (hqueue : ∀ σ, e ≠ .queued σ) : Answered (s.record e) := by
  refine h.mute [e] rfl ?_ (fun _ _ => Iff.rfl) (fun _ _ hσ => Or.inl hσ) le_rfl fun σ => ?_
  · intro e' he'
    rw [List.mem_singleton.mp he']
    exact he
  · refine (or_iff_left fun hmem => ?_).symm
    exact hqueue σ (List.mem_singleton.mp hmem).symm

theorem Answered.coCreate (h : Answered s) (ha : Aims s) (ht : Tables s none)
    (hcreate : s.coCreate none reuse = some (c, s')) : Answered s' := by
  obtain ⟨-, -, -, hold, -, heq⟩ := ha.coCreate ht (fun _ hσ => by cases hσ) hcreate
  rw [heq]
  exact h.change c (.ready none) rfl rfl hold (Or.inl rfl) le_rfl rfl

theorem Answered.fork (h : Answered s) (ha : Aims s) (ht : Tables s none)
    (hfork : s.fork reuse = some s') : Answered s' := by
  obtain ⟨⟨c, s₁⟩, hcreate, rfl⟩ := Option.map_eq_some_iff.mp hfork
  have h₁ := h.coCreate ha ht hcreate
  exact { h₁ with }

theorem Answered.newSession (h : Answered s) : Answered s.newSession :=
  { h with future := fun σ hσ => h.future σ (Nat.lt_of_succ_lt hσ) }

theorem Answered.timeout (h : Answered s) (ha : Aims s) (ht : Tables s none)
    (htimeout : s.timeout reuse = some s') : Answered s' := by
  obtain ⟨⟨c, s₁⟩, hcreate, rfl⟩ := Option.map_eq_some_iff.mp htimeout
  have hnew : Aims s.newSession :=
    { ha with old := fun c' σ hσ => (ha.old c' σ hσ).trans (Nat.le_succ _) }
  have htimer : ∀ σ, (Status.ready (some (s.sessions + 1))).waits? = some σ →
      σ ≤ s.newSession.sessions := by
    intro σ hσ
    cases hσ
    exact le_rfl
  obtain ⟨-, -, -, hold, -, heq⟩ := hnew.coCreate ht.newSession htimer hcreate
  have h₁ : Answered s₁ := by
    rw [heq]
    exact h.change c (.ready (some (s.sessions + 1))) rfl rfl hold
      (Or.inr ⟨rfl, Nat.lt_succ_self _⟩) (Nat.le_succ _) rfl
  exact { h₁ with }

theorem Answered.suspendSleep (h : Answered s) (hc : s.status c = .running) {token : Token}
    {status : Session → Status} (hstatus : ∀ σ, (status σ).token? = some (token, σ)) :
    Answered (s.suspendSleep c n token status) := by
  have hnew := hstatus (s.sessions + 1)
  unfold Scheduler.suspendSleep
  dsimp only
  split
  · exact { h.newSession with }
  · refine h.mute [] (List.append_nil _).symm nofun (fun c' σ => ?_) (fun c' σ hσ => ?_)
      (Nat.le_succ _) fun σ => (or_iff_left List.not_mem_nil).symm
    · refine calling_update (fun σ hcall => ?_) (fun σ hcall => ?_)
      · change s.status c = _ at hcall
        rw [hc] at hcall
        cases hcall
      · rw [hcall] at hnew
        cases hnew
    · change (update s.status c _ c').waits? = some σ at hσ
      by_cases heq : c' = c
      · rw [heq, update_self, waits?_of_session? (session?_of_token? hnew)] at hσ
        cases hσ
        exact Or.inr (Nat.lt_succ_self _)
      · rw [update_of_ne heq] at hσ
        exact Or.inl hσ

theorem Answered.queueErrors (h : Answered s) {session : Session} {source : Address}
    {order : List Session} (hqueue : s.queueErrors session source order = some s') :
    Answered s' := by
  obtain ⟨new, -, -, rfl⟩ := queueErrors_spec hqueue
  refine h.mute (new.map .queued) rfl (fun e he => ?_) (fun _ _ => Iff.rfl)
    (fun _ _ hσ => Or.inl hσ) le_rfl fun σ => ?_
  · obtain ⟨σ, -, rfl⟩ := List.mem_map.mp he
    trivial
  · show σ ∈ s.errorQueue ++ new ↔ _
    rw [List.mem_append, List.mem_map]
    refine or_congr_right ⟨fun hσ => ⟨σ, hσ, rfl⟩, ?_⟩
    rintro ⟨σ', hσ', heq⟩
    cases heq
    exact hσ'

theorem Answered.wakeup (h : Answered s) (token : Token) : Answered (s.wakeup token) := by
  unfold Scheduler.wakeup
  split
  · rename_i σ _
    have hrecord : Answered (s.record (.woken σ)) := h.record trivial fun _ => nofun
    exact { hrecord with }
  · exact h

theorem ne_calling (hc : s.status c = .running ∨ s.status c = .ready none) (σ : Session) :
    s.status c ≠ .calling σ := by
  intro hcall
  rw [hcall] at hc
  rcases hc with heq | heq
  · cases heq
  · cases heq

theorem Answered.recycle (h : Answered s)
    (hc : s.status c = .running ∨ s.status c = .ready none) : Answered (s.recycle c n) :=
  h.change c .pooled rfl rfl (ne_calling hc) (Or.inl rfl) le_rfl rfl

theorem Answered.die (h : Answered s) (hc : s.status c = .running) : Answered (s.die c) :=
  h.change c .dead rfl rfl (ne_calling (Or.inl hc)) (Or.inl rfl) le_rfl rfl

theorem Answered.quit (h : Answered s) (hc : s.status c = .running) : Answered (s.quit c n) := by
  have hstop : Answered (s.setStatus c .quit) :=
    h.change c .quit rfl rfl (ne_calling (Or.inl hc)) (Or.inl rfl) le_rfl rfl
  refine hstop.mute ((s.watchingSession.pairs.map Prod.snd).dedup.map .left) rfl (fun e he => ?_)
    (fun _ _ => Iff.rfl) (fun _ _ hσ => Or.inl hσ) le_rfl fun σ => ?_
  · obtain ⟨addr, -, rfl⟩ := List.mem_map.mp he
    trivial
  · refine (or_iff_left fun hmem => ?_).symm
    obtain ⟨addr, -, heq⟩ := List.mem_map.mp hmem
    cases heq

/-- A coroutine that waits for its arguments is resumed. -/
theorem Answered.start (h : Answered s) (hc : s.status c = .ready none) :
    Answered (s.resume c n) := by
  rw [resume_of_waits (Or.inr hc), hc]
  exact h.change c .running rfl rfl (ne_calling (Or.inr hc)) (Or.inl rfl) le_rfl rfl

/-- What waits for a session is resumed through it. -/
theorem Answered.resumeSession (h : Answered s) (ht : Tables s none) (ha : Aims s)
    {s₁ : Scheduler} (heq : s₁ = { s with
      sessionIdCoroutine := s₁.sessionIdCoroutine, wakeupQueue := s₁.wakeupQueue,
      errorQueue := s₁.errorQueue })
    {how : How} (hc : (s.status c).waits? = some σ) (hawaits : (s.status c).awaits σ how)
    (hbrk : how = .brk → ∀ σ', s.status c ≠ .calling σ')
    (hown : ∀ msg, how = .payload msg → .responded σ msg ∈ s.log)
    (hfailed : how = .failure → .queued σ ∈ s.log)
    (hqueue : ∀ σ', σ' ∈ s₁.errorQueue → σ' ∈ s.errorQueue)
    (hserved : ∀ σ' ∈ s.errorQueue, σ' ∈ s₁.errorQueue ∨ how = .failure ∧ σ' = σ) :
    Answered (s₁.resumeSession c σ how n) := by
  have hstatus : s₁.status = s.status := by rw [heq]
  have hlog : s₁.log = s.log := by rw [heq]
  have hsessions : s₁.sessions = s.sessions := by rw [heq]
  rw [resumeSession_of_awaits (by rw [hstatus]; exact hawaits)]
  have hwaits : ((s₁.record (.resumed σ how)).status c).waits? = some σ := by
    show (s₁.status c).waits? = some σ
    rw [hstatus]
    exact hc
  rw [resume_of_waits (Or.inl ⟨σ, hwaits⟩), unblock_eq]
  refine h.serve ht ?_ hc hbrk ?_ (ha.old c σ hc) hsessions hown hfailed hqueue hserved
  · show s₁.log ++ _ = _
    rw [hlog]
  · show update s₁.status c .running = _
    rw [hstatus]

theorem Answered.dispatchResponse (h : Answered s) (ht : Tables s none) (ha : Aims s) (msg : Msg) :
    Answered (s.dispatchResponse σ msg) := by
  have hbegin : Answered s.begin := { h with }
  have hrecord : Answered (s.begin.record (.responded σ msg)) :=
    hbegin.record trivial fun _ => nofun
  unfold Scheduler.dispatchResponse
  dsimp only
  split
  · exact { hrecord with }
  · exact { hrecord with }
  · rename_i co hco
    have hwaits := ha.entry σ co hco
    have ht' : Tables (s.begin.record (.responded σ msg)) none := { ht with }
    have ha' : Aims (s.begin.record (.responded σ msg)) := { ha with }
    refine hrecord.resumeSession ht' ha' rfl hwaits (awaits_payload.mpr hwaits) nofun ?_ nofun
      (fun _ hσ' => hσ') fun _ hσ' => Or.inl hσ'
    intro msg' heq
    cases heq
    exact List.mem_append_right _ (List.mem_singleton_self _)

theorem Answered.dispatchWakeup (h : Answered s) (ht : Tables s none) (ha : Aims s) :
    Answered (s.dispatchWakeup n) := by
  cases hqueue : s.wakeupQueue with
  | nil =>
    rw [dispatchWakeup_nil hqueue]
    exact { h with }
  | cons token queue =>
    cases hσ : s.sleepSession.get token with
    | none =>
      rw [dispatchWakeup_stale hqueue hσ]
      exact { h with }
    | some σ =>
      obtain ⟨c, hc, hentry, heq⟩ := dispatchWakeup_token ht hqueue hσ n
      rw [heq]
      refine h.resumeSession ht ha rfl (ha.entry σ c hentry) (awaits_of_token? hc) ?_ nofun nofun
        (fun _ hσ' => hσ') fun _ hσ' => Or.inl hσ'
      intro _ σ' hcall
      rw [hcall] at hc
      cases hc

theorem Answered.dispatchErrorQueue (h : Answered s) (ht : Tables s none) (ha : Aims s) :
    Answered (s.dispatchErrorQueue n) := by
  cases n with
  | zero => exact { h with }
  | succ n =>
    cases hqueue : s.errorQueue with
    | nil =>
      rw [dispatchErrorQueue_nil hqueue]
      exact { h with }
    | cons σ queue =>
      obtain ⟨c, hc, hentry, heq⟩ := dispatchErrorQueue_session ht hqueue n
      rw [heq]
      refine h.resumeSession ht ha rfl (ha.entry σ c hentry) hc nofun nofun ?_ ?_ ?_
      · intro _
        refine h.queue σ ?_
        rw [hqueue]
        exact List.mem_cons_self
      · intro σ' hσ'
        rw [hqueue]
        exact List.mem_cons_of_mem _ hσ'
      · intro σ' hσ'
        rw [hqueue] at hσ'
        rcases List.mem_cons.mp hσ' with heq' | hleft
        · exact Or.inr ⟨rfl, heq'⟩
        · exact Or.inl hleft

theorem Served.empty (herror : s.errorQueue = []) : Served s :=
  ⟨fun _ => herror, fun _ _ => herror, fun _ _ hne => absurd herror hne⟩

/-- A coroutine runs, or has just stopped. -/
theorem Served.later (hidle : s.control ≠ .idle) (hforks : s.control ≠ .forks)
    (herrors : ∀ n, s.control ≠ .errors n) : Served s :=
  ⟨fun heq => absurd heq hidle, fun heq => absurd heq hforks, fun n heq => absurd heq (herrors n)⟩

theorem Served.running {co : Co} {pending : ℕ} (hc : s.control = .running co pending) :
    Served s := by
  apply Served.later
  · rw [hc]
    exact nofun
  · rw [hc]
    exact nofun
  · rw [hc]
    exact fun _ => nofun

/-- What waits runs when it is resumed. -/
theorem Served.resume (h : (∃ σ, (s.status c).waits? = some σ) ∨ s.status c = .ready none) :
    Served (s.resume c n) := by
  rw [resume_of_waits h]
  exact .running rfl

theorem Served.dispatchWakeup (ht : Tables s none) (ha : Aims s) : Served (s.dispatchWakeup n) := by
  cases hqueue : s.wakeupQueue with
  | nil =>
    rw [dispatchWakeup_nil hqueue]
    refine ⟨nofun, nofun, fun k hk _ => Or.inl ?_⟩
    cases hk
    exact Nat.succ_pos n
  | cons token queue =>
    cases hσ : s.sleepSession.get token with
    | none =>
      rw [dispatchWakeup_stale hqueue hσ]
      refine ⟨nofun, nofun, fun k hk _ => Or.inl ?_⟩
      cases hk
      exact Nat.succ_pos n
    | some σ =>
      obtain ⟨c, -, hentry, heq⟩ := dispatchWakeup_token ht hqueue hσ n
      rw [heq]
      exact Served.resume (Or.inl ⟨σ, ha.entry σ c hentry⟩)

theorem Served.dispatchErrorQueue (h : Served s) (ht : Tables s none) (ha : Aims s)
    (hcontrol : s.control = .errors n) : Served (s.dispatchErrorQueue n) := by
  cases n with
  | zero =>
    refine ⟨nofun, fun _ hfork => ?_, nofun⟩
    by_contra hne
    rcases h.errors 0 hcontrol hne with hpos | hne'
    · exact absurd hpos (lt_irrefl 0)
    · exact hne' hfork
  | succ n =>
    cases hqueue : s.errorQueue with
    | nil =>
      rw [dispatchErrorQueue_nil hqueue]
      exact .empty hqueue
    | cons σ queue =>
      obtain ⟨c, -, hentry, heq⟩ := dispatchErrorQueue_session ht hqueue n
      rw [heq]
      exact Served.resume (Or.inl ⟨σ, ha.entry σ c hentry⟩)

/-! ## Runs -/

/-- When a message comes, the error queue is empty, unless the service has left. -/
theorem Honest.errorQueue (h : Honest s) (hidle : s.control = .idle) :
    s.exited = true ∨ s.errorQueue = [] :=
  h.served.imp_right fun hserved => hserved.idle hidle

theorem Honest.steady {a : Act} (h : Honest s) (hm : s.Moves a s') (hok : s.Calm a) :
    s.Steady a := by
  -- a message meets no session that it could spoil
  have hqueue : ∀ {P : Prop}, s.control = .idle → (s.exited = true → P) →
      (s.errorQueue = [] → P) → P := fun hidle hexit hempty =>
    (h.errorQueue hidle).elim hexit hempty
  cases hm with
  | @response σ msg hidle =>
    intro c hc σ' hσ' hcall
    have hwaits := h.aims.entry σ c hc
    rw [hcall] at hwaits
    cases hwaits
    refine hqueue hidle (fun hexit => hok hexit hσ') fun hempty => ?_
    rw [hempty] at hσ'
    cases hσ'
  | error hidle =>
    refine hqueue hidle hok fun hempty σ' hσ' => ?_
    rw [hempty] at hσ'
    cases hσ'
  | errorDead hidle =>
    refine hqueue hidle hok fun hempty σ' hσ' => ?_
    rw [hempty] at hσ'
    cases hσ'
  | term => exact hok
  | answers =>
    cases a
    all_goals trivial
  | _ => trivial

theorem Served.moves {a : Act} (h : Honest s) (hm : s.Moves a s') :
    s'.exited = true ∨ Served s' := by
  rcases h.served with hexit | hserved
  · exact Or.inl (exited_moves hm hexit)
  cases hm with
  | @response σ msg hidle =>
    refine Or.inr ?_
    have herror := hserved.idle hidle
    unfold Scheduler.dispatchResponse
    dsimp only
    split
    · exact .empty herror
    · exact .empty herror
    · rename_i co hco
      exact Served.resume (Or.inl ⟨σ, h.aims.entry σ co hco⟩)
  | error => exact Or.inr (.later nofun nofun fun _ => nofun)
  | errorDead => exact Or.inr (.later nofun nofun fun _ => nofun)
  | request hidle hcreate =>
    have hbegin : Aims s.begin := { h.aims with }
    obtain ⟨-, hst, -, -, -, heq⟩ :=
      hbegin.coCreate { h.tables with } (fun _ hσ => by cases hσ) hcreate
    split
    · exact Or.inr (Served.resume (Or.inr hst))
    · refine Or.inr (.empty ?_)
      rw [heq]
      exact hserved.idle hidle
  | unknown hidle =>
    have herror := hserved.idle hidle
    split
    · exact Or.inr (.empty herror)
    · exact Or.inr (.empty herror)
  | answers => exact Or.inr hserved
  | wakeup hc =>
    refine Or.inr ?_
    unfold Scheduler.wakeup
    split
    · exact .running hc
    · exact hserved
  | fork hc hfork => exact Or.inr (.running ((fork_control hfork).trans hc))
  | timeout hc htimeout =>
    obtain ⟨⟨c, s₁⟩, hcreate, rfl⟩ := Option.map_eq_some_iff.mp htimeout
    obtain ⟨st, pool, born, rfl, -⟩ := coCreate_spec h.tables.newSession hcreate
    exact Or.inr (.running hc)
  | sleep hc =>
    refine Or.inr ?_
    unfold Scheduler.sleep Scheduler.suspendSleep
    dsimp only
    split
    · exact .running hc
    · exact .later nofun nofun fun _ => nofun
  | wait hc =>
    refine Or.inr ?_
    unfold Scheduler.wait Scheduler.suspendSleep
    dsimp only
    split
    · exact .running hc
    · exact .later nofun nofun fun _ => nofun
  | call => exact Or.inr (.later nofun nofun fun _ => nofun)
  | term hc hqueue =>
    obtain ⟨new, -, -, rfl⟩ := queueErrors_spec hqueue
    exact Or.inr (.running hc)
  | exit => exact Or.inl rfl
  | finish => exact Or.inr (.later nofun nofun fun _ => nofun)
  | raise => exact Or.inr (.later nofun nofun fun _ => nofun)
  | dispatchWakeup hc => exact Or.inr (.dispatchWakeup h.tables h.aims)
  | dispatchErrorQueue hc => exact Or.inr (hserved.dispatchErrorQueue h.tables h.aims hc)
  | crash hc hfork =>
    obtain ⟨⟨c, s₁⟩, hcreate, rfl⟩ := Option.map_eq_some_iff.mp hfork
    refine Or.inr ⟨nofun, fun _ hempty => ?_, nofun⟩
    exact absurd hempty (List.append_ne_nil_of_right_ne_nil _ (List.cons_ne_nil _ _))
  | nextFork hc hmem => exact Or.inr (Served.resume (Or.inr (h.aims.forked _ hmem)))
  | leave hc hnone => exact Or.inr (.empty (hserved.forks hc hnone))

theorem Honest.aims_answered {a : Act} (h : Honest s) (hm : s.Moves a s') (hok : s.Calm a) :
    Aims s' ∧ Answered s' := by
  obtain ⟨ht, ha, hlog, -⟩ := h
  have hrun : ∀ {co pending}, s.control = .running co pending → s.status co = .running :=
    fun hc => (ht.running _).mpr ⟨_, hc⟩
  have hbegin : Tables s.begin none := { ht with }
  have hbegin' : Aims s.begin := { ha with }
  have hbegin'' : Answered s.begin := { hlog with }
  have hnone : ∀ σ, (Status.ready none).waits? = some σ → σ ≤ s.begin.sessions := nofun
  cases hm with
  | response hidle => exact ⟨ha.dispatchResponse _, hlog.dispatchResponse ht ha _⟩
  | error hidle hcreate hlive hqueue =>
    obtain ⟨ha₁, hst, -, -, -, heq⟩ := hbegin'.coCreate hbegin hnone hcreate
    have hlog₁ := (hbegin''.coCreate hbegin' hbegin hcreate).queueErrors hqueue
    obtain ⟨new, -, -, rfl⟩ := queueErrors_spec hqueue
    refine ⟨Aims.recycle { ha₁ with } (Or.inr hst) ?_, hlog₁.recycle (Or.inr hst)⟩
    rw [heq]
    show _ ∉ s.forkQueue
    rw [ht.idle hidle]
    exact List.not_mem_nil
  | errorDead hidle hcreate hdead =>
    obtain ⟨-, hst, -⟩ := hbegin'.coCreate hbegin hnone hcreate
    exact absurd (hdead.symm.trans hst) nofun
  | request hidle hcreate =>
    obtain ⟨ha₁, hst, -, -, -, heq⟩ := hbegin'.coCreate hbegin hnone hcreate
    have hlog₁ := hbegin''.coCreate hbegin' hbegin hcreate
    split
    · refine ⟨ha₁.start hst ?_, hlog₁.start hst⟩
      rw [heq]
      show _ ∉ s.forkQueue
      rw [ht.idle hidle]
      exact List.not_mem_nil
    · exact ⟨{ ha₁ with }, { hlog₁ with }⟩
  | unknown =>
    split
    · exact ⟨{ ha with }, { hlog with }⟩
    · exact ⟨{ ha with }, { hlog with }⟩
  | answers => exact ⟨ha, hlog⟩
  | wakeup =>
    refine ⟨?_, hlog.wakeup _⟩
    unfold Scheduler.wakeup
    split
    · exact { ha with }
    · exact ha
  | fork hc hfork => exact ⟨ha.fork ht hfork, hlog.fork ha ht hfork⟩
  | timeout hc htimeout => exact ⟨ha.timeout ht htimeout, hlog.timeout ha ht htimeout⟩
  | sleep hc =>
    exact ⟨ha.suspendSleep (hrun hc) hok fun _ => rfl, hlog.suspendSleep (hrun hc) fun _ => rfl⟩
  | wait hc =>
    exact ⟨ha.suspendSleep (hrun hc) hok fun _ => rfl, hlog.suspendSleep (hrun hc) fun _ => rfl⟩
  | @call addr co pending hc =>
    have hblock := ha.block (hrun hc) (.calling (s.sessions + 1)) rfl
    exact ⟨{ hblock with }, hlog.call ha (hrun hc) _⟩
  | term hc hqueue =>
    refine ⟨?_, hlog.queueErrors hqueue⟩
    obtain ⟨new, -, -, rfl⟩ := queueErrors_spec hqueue
    exact { ha with }
  | exit hc =>
    have hstop := ha.stop (hrun hc) .quit nofun rfl
    exact ⟨{ hstop with forked := nofun }, hlog.quit (hrun hc)⟩
  | finish hc =>
    have hfacts := ht.running_facts (hrun hc)
    exact ⟨ha.recycle (Or.inl (hrun hc)) hfacts.2.2, hlog.recycle (Or.inl (hrun hc))⟩
  | raise hc =>
    have hstop := ha.stop (hrun hc) .dead nofun rfl
    exact ⟨{ hstop with }, hlog.die (hrun hc)⟩
  | dispatchWakeup => exact ⟨ha.dispatchWakeup ht, hlog.dispatchWakeup ht ha⟩
  | dispatchErrorQueue => exact ⟨ha.dispatchErrorQueue ht, hlog.dispatchErrorQueue ht ha⟩
  | crash hc hfork =>
    have ha₁ := ha.fork ht hfork
    have hlog₁ := hlog.fork ha ht hfork
    exact ⟨{ ha₁ with }, { hlog₁ with }⟩
  | @nextFork co hc hmem =>
    have herase : Answered { s with forkQueue := s.forkQueue.erase co } := { hlog with }
    exact ⟨ha.nextFork ht hmem, herase.start (ha.forked co hmem)⟩
  | leave => exact ⟨{ ha with }, { hlog with }⟩

/-- A step that meets the conditions keeps the calls in order. -/
theorem Honest.moves {a : Act} (h : Honest s) (hm : s.Moves a s') (hok : s.Calm a) : Honest s' :=
  have hboth := h.aims_answered hm hok
  ⟨h.tables.moves hm (h.steady hm hok), hboth.1, hboth.2, Served.moves h hm⟩

end

end SkynetEureka.Coroutines
