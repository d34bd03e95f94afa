import SkynetEureka.Coroutines.Moves

/-!
# What the tables say about the coroutines

In every run: a coroutine that waits for a session is what `session_id_coroutine` has for it, and
`sleep_session` and `watching_session` hold the sessions of those that sleep and call.
-/

namespace SkynetEureka.Coroutines

open Lib Function

/-- The session that the coroutine waits for in `skynet.sleep`, `skynet.wait` or `skynet.call`. -/
def Status.session? : Status → Option Session
  | .sleeping σ _ | .waiting σ _ | .calling σ => some σ
  | _ => none

/-- The token with which the coroutine sleeps. -/
def Status.token? : Status → Option (Token × Session)
  | .sleeping σ token | .waiting σ token => some (token, σ)
  | _ => none

/-- The tables fit the coroutines; `session_id_coroutine` may have lost the coroutine `loose`. -/
structure Tables (s : Scheduler) (loose : Option Co) : Prop where
  fresh : ∀ σ, s.sessions < σ → s.sessionIdCoroutine.get σ = none
  known : ∀ σ c, s.sessionIdCoroutine.get σ = some (.co c) → c < s.born
  born : ∀ c, s.status c = .unborn ↔ s.born ≤ c
  running : ∀ c, s.status c = .running ↔ ∃ n, s.control = .running c n
  entry : ∀ c σ, (s.status c).session? = some σ → loose = some c ∨
    s.sessionIdCoroutine.get σ = some (.co c)
  owner : ∀ c c' σ, (s.status c).session? = some σ → (s.status c').session? = some σ → c = c'
  old : ∀ c σ, (s.status c).session? = some σ → σ ≤ s.sessions
  asleep : ∀ c token σ, (s.status c).token? = some (token, σ) →
    s.sleepSession.get token = some σ
  sleeper : ∀ token σ, s.sleepSession.get token = some σ →
    ∃ c, (s.status c).token? = some (token, σ)
  calls : ∀ c σ, s.status c = .calling σ → (s.watchingSession.get σ).isSome
  caller : ∀ σ, (s.watchingSession.get σ).isSome → ∃ c, s.status c = .calling σ
  pool : ∀ c ∈ s.coroutinePool, s.status c = .pooled ∨ s.status c = .spoiled ∨ s.status c = .dead
  poolOnce : s.coroutinePool.Nodup
  forked : ∀ c ∈ s.forkQueue, s.status c = .ready none ∨ s.status c = .dead
  forkOnce : ∀ c, s.status c = .ready none → s.forkQueue.count c ≤ 1
  idle : s.control = .idle → s.forkQueue = []
  queued : ∀ σ ∈ s.errorQueue, (s.watchingSession.get σ).isSome
  queuedOnce : s.errorQueue.Nodup

section

variable {s s' : Scheduler} {loose : Option Co} {c co : Co} {n : ℕ} {σ : Session}
  {timer : Option Session} {reuse : Option Co} {st : Status}

/-! ## Status -/

@[simp, grind =] theorem session?_sleeping {token : Token} :
    (Status.sleeping σ token).session? = some σ := rfl
@[simp, grind =] theorem session?_waiting {token : Token} :
    (Status.waiting σ token).session? = some σ := rfl
@[simp, grind =] theorem session?_calling : (Status.calling σ).session? = some σ := rfl
@[simp, grind =] theorem session?_ready : (Status.ready timer).session? = none := rfl
@[simp, grind =] theorem session?_running : Status.running.session? = none := rfl
@[simp] theorem session?_unborn : Status.unborn.session? = none := rfl
@[simp] theorem session?_pooled : Status.pooled.session? = none := rfl
@[simp] theorem session?_spoiled : Status.spoiled.session? = none := rfl
@[simp] theorem session?_quit : Status.quit.session? = none := rfl
@[simp] theorem session?_dead : Status.dead.session? = none := rfl

@[simp] theorem token?_sleeping {token : Token} :
    (Status.sleeping σ token).token? = some (token, σ) := rfl
@[simp] theorem token?_waiting {token : Token} :
    (Status.waiting σ token).token? = some (token, σ) := rfl
@[simp] theorem token?_calling : (Status.calling σ).token? = none := rfl
@[simp] theorem token?_ready : (Status.ready timer).token? = none := rfl
@[simp] theorem token?_running : Status.running.token? = none := rfl
@[simp] theorem token?_unborn : Status.unborn.token? = none := rfl
@[simp] theorem token?_pooled : Status.pooled.token? = none := rfl
@[simp] theorem token?_spoiled : Status.spoiled.token? = none := rfl
@[simp] theorem token?_quit : Status.quit.token? = none := rfl
@[simp] theorem token?_dead : Status.dead.token? = none := rfl

theorem session?_of_token? {token : Token} (h : st.token? = some (token, σ)) :
    st.session? = some σ := by
  cases st <;> simp_all

theorem token?_eq_some {token : Token} :
    st.token? = some (token, σ) ↔ st = .sleeping σ token ∨ st = .waiting σ token := by
  cases st <;> simp
  all_goals tauto

theorem session?_eq_some :
    st.session? = some σ ↔ (∃ token, st.token? = some (token, σ)) ∨ st = .calling σ := by
  cases st <;> simp

theorem token?_ne_of_free (h : st.session? = none) (token : Token) (σ : Session) :
    st.token? ≠ some (token, σ) := by
  intro htoken
  rw [session?_of_token? htoken] at h
  cases h

theorem ne_calling_of_free (h : st.session? = none) (σ : Session) : st ≠ .calling σ := by
  rintro rfl
  cases h

/-! ## Changes of the status -/

/-- A coroutine that waits for nothing changes to another such state, and may be born so. -/
theorem Tables.change (h : Tables s loose) (st : Status) (control : Control)
    (hc : (s.status c).session? = none) (hst : st.session? = none) {born : ℕ}
    (hborn : ∀ c', born ≤ c' ↔ s.born ≤ c' ∧ c' ≠ c) (hle : s.born ≤ born) (hne : st ≠ .unborn)
    (hrun : ∀ c', update s.status c st c' = .running ↔ ∃ n, control = .running c' n)
    (hpool : c ∈ s.coroutinePool → st = .pooled ∨ st = .spoiled ∨ st = .dead)
    (hfork : c ∈ s.forkQueue → st = .dead) (hidle : control = .idle → s.forkQueue = []) :
    Tables { s.setStatus c st with born := born, control := control } loose := by
  have htoken := token?_ne_of_free hst
  have htoken' := token?_ne_of_free hc
  have hcall := ne_calling_of_free hst
  have hcall' := ne_calling_of_free hc
  unfold Scheduler.setStatus
  constructor
  · exact h.fresh
  · exact fun σ c' hc' => (h.known σ c' hc').trans_le hle
  · have := h.born
    grind -ring -linarith [Function.update]
  · exact hrun
  · have := h.entry
    grind -ring -linarith [Function.update]
  · have := h.owner
    grind -ring -linarith [Function.update]
  · have := h.old
    grind -ring -linarith [Function.update]
  · have := h.asleep
    grind -ring -linarith [Function.update]
  · intro token σ hsleep
    obtain ⟨c', hc'⟩ := h.sleeper token σ hsleep
    refine ⟨c', ?_⟩
    grind -ring -linarith [Function.update]
  · have := h.calls
    grind -ring -linarith [Function.update]
  · intro σ hwatch
    obtain ⟨c', hc'⟩ := h.caller σ hwatch
    refine ⟨c', ?_⟩
    grind -ring -linarith [Function.update]
  · have := h.pool
    grind -ring -linarith [Function.update]
  · exact h.poolOnce
  · have := h.forked
    grind -ring -linarith [Function.update]
  · have := h.forkOnce
    intro c' hc'
    by_cases hmem : c' ∈ s.forkQueue
    · grind -ring -linarith [Function.update]
    · rw [List.count_eq_zero_of_not_mem hmem]
      omega
  · exact hidle
  · exact h.queued
  · exact h.queuedOnce

theorem born_iff (hlt : c < s.born) (c' : Co) : s.born ≤ c' ↔ s.born ≤ c' ∧ c' ≠ c := by
  refine ⟨fun hle => ⟨hle, ?_⟩, And.left⟩
  rintro rfl
  exact absurd hlt (not_lt.mpr hle)

/-- None runs any more. -/
theorem running_iff (st : Status) (control : Control)
    (hquiet : ∀ c', s.status c' = .running → c' = c) (hst : st ≠ .running)
    (hcontrol : ∀ c n, control ≠ .running c n) (c' : Co) :
    update s.status c st c' = .running ↔ ∃ n, control = .running c' n := by
  constructor
  · intro hc'
    by_cases heq : c' = c
    · rw [heq, update_self] at hc'
      exact absurd hc' hst
    · rw [update_of_ne heq] at hc'
      exact absurd (hquiet c' hc') heq
  · rintro ⟨n, hn⟩
    exact absurd hn (hcontrol c' n)

/-- `co_create` gives a coroutine that waited for nothing. -/
theorem coCreate_spec (h : Tables s loose) (hcreate : s.coCreate timer reuse = some (c, s')) :
    ∃ st pool born, s' = { s.setStatus c st with coroutinePool := pool, born := born } ∧
      (st = .ready timer ∧ s.status c ≠ .dead ∨ st = .dead) ∧
      (s.status c = .unborn ∨ s.status c = .pooled ∨ s.status c = .spoiled ∨
        s.status c = .dead) ∧
      pool.Nodup ∧ (∀ c' ∈ pool, c' ∈ s.coroutinePool) ∧ c ∉ pool ∧
      s.born ≤ born ∧ ∀ c', born ≤ c' ↔ s.born ≤ c' ∧ c' ≠ c := by
  unfold Scheduler.coCreate at hcreate
  cases reuse with
  | none =>
    cases hcreate
    have hborn := (h.born s.born).mpr le_rfl
    have hpool : s.born ∉ s.coroutinePool := by
      intro hmem
      rcases h.pool _ hmem with heq | heq | heq
      all_goals
        rw [hborn] at heq
        cases heq
    refine ⟨.ready timer, s.coroutinePool, s.born + 1, rfl, Or.inl ⟨rfl, ?_⟩, Or.inl hborn,
      h.poolOnce, fun c' hc' => hc', hpool, Nat.le_succ _, fun c' => ?_⟩
    · rw [hborn]
      exact nofun
    · rw [Nat.succ_le_iff, Nat.lt_iff_le_and_ne, ne_comm]
  | some co =>
    by_cases hmem : co ∈ s.coroutinePool
    · simp only [if_pos hmem, Option.some.injEq, Prod.mk.injEq] at hcreate
      obtain ⟨rfl, rfl⟩ := hcreate
      have hst := h.pool co hmem
      have hborn : co < s.born := by
        by_contra hle
        rw [(h.born co).mpr (not_lt.mp hle)] at hst
        rcases hst with heq | heq | heq
        all_goals cases heq
      refine ⟨_, s.coroutinePool.erase co, s.born, rfl, ?_, Or.inr hst, h.poolOnce.erase co,
        fun c' hc' => List.mem_of_mem_erase hc', h.poolOnce.not_mem_erase, le_rfl, born_iff hborn⟩
      · by_cases hpooled : s.status co = .pooled
        · rw [if_pos hpooled]
          refine Or.inl ⟨rfl, ?_⟩
          rw [hpooled]
          exact nofun
        · rw [if_neg hpooled]
          exact Or.inr rfl
    · simp only [if_neg hmem] at hcreate
      cases hcreate

/-- `co_create` keeps the tables. -/
theorem Tables.coCreate (h : Tables s loose) (hcreate : s.coCreate timer reuse = some (c, s')) :
    Tables s' loose := by
  obtain ⟨st, pool, born, rfl, hst, hfree, honce, hsub, hmem, hle, hborn⟩ :=
    coCreate_spec h hcreate
  have hsession : (s.status c).session? = none := by
    rcases hfree with heq | heq | heq | heq
    all_goals
      rw [heq]
      rfl
  have hsession' : st.session? = none := by
    rcases hst with ⟨rfl, -⟩ | rfl
    all_goals rfl
  have hpool : Tables { s with coroutinePool := pool } loose :=
    { h with
      pool := fun c' hc' => h.pool c' (hsub c' hc')
      poolOnce := honce }
  refine hpool.change st s.control hsession hsession' hborn hle ?_ (fun c' => ?_)
    (fun hc => absurd hc hmem) ?_ h.idle
  · rintro rfl
    rcases hst with ⟨heq, -⟩ | heq
    all_goals cases heq
  · by_cases heq : c' = c
    · have hnot : ∀ n, s.control ≠ .running c n := by
        intro n hn
        rw [(h.running c).mpr ⟨n, hn⟩] at hfree
        simp at hfree
      rw [heq, update_self]
      rcases hst with ⟨rfl, -⟩ | rfl
      all_goals exact ⟨nofun, fun ⟨n, hn⟩ => absurd hn (hnot n)⟩
    · rw [update_of_ne heq]
      exact h.running c'
  · intro hfork
    have hforked := h.forked c hfork
    rcases hst with ⟨-, hdead⟩ | rfl
    · rcases hforked with heq | heq
      · rw [heq] at hfree
        simp at hfree
      · exact absurd heq hdead
    · rfl

/-! ## Resuming -/

/-- No coroutine runs. -/
def Quiet (s : Scheduler) : Prop := ∀ c, s.status c ≠ .running

theorem Tables.quiet (h : Tables s loose) (hc : ∀ c n, s.control ≠ .running c n) : Quiet s := by
  intro c hrun
  obtain ⟨n, hn⟩ := (h.running c).mp hrun
  exact hc c n hn

theorem Tables.control (h : Tables s loose) (control : Control) (hquiet : Quiet s)
    (hcontrol : ∀ c n, control ≠ .running c n) (hidle : control = .idle → s.forkQueue = []) :
    Tables { s with control := control } loose :=
  { h with
    running := fun c =>
      ⟨fun hc => absurd hc (hquiet c), fun ⟨n, hn⟩ => absurd hn (hcontrol c n)⟩
    idle := hidle }

theorem unblock_eq (s : Scheduler) (st : Status) :
    s.unblock st = { s with
      sleepSession := (s.unblock st).sleepSession
      watchingSession := (s.unblock st).watchingSession
      sessionIdCoroutine := (s.unblock st).sessionIdCoroutine } := by
  cases st <;> rfl

theorem unblock_sleepSession {token : Token} :
    (s.unblock st).sleepSession.get token = some σ ↔
      s.sleepSession.get token = some σ ∧ ∀ σ', st.token? ≠ some (token, σ') := by
  cases st <;> simp [Scheduler.unblock, Scheduler.setEntry, Table.get_set]
  all_goals grind -ring -linarith

theorem unblock_watchingSession :
    ((s.unblock st).watchingSession.get σ).isSome ↔
      (s.watchingSession.get σ).isSome ∧ st ≠ .calling σ := by
  cases st <;> simp [Scheduler.unblock, Scheduler.setEntry, Table.get_set]
  all_goals grind -ring -linarith

theorem unblock_sessionIdCoroutine {e : Entry} :
    (s.unblock st).sessionIdCoroutine.get σ = some e ↔
      s.sessionIdCoroutine.get σ = some e ∧ ∀ token, st ≠ .waiting σ token := by
  cases st <;> simp [Scheduler.unblock, Scheduler.setEntry, Table.get_set]
  all_goals grind -ring -linarith

/-- The coroutine that is resumed runs, and the tables have forgotten what it waited for. -/
theorem Tables.run (h : Tables s (some c)) (hquiet : Quiet s) (hborn : c < s.born)
    (hpool : c ∉ s.coroutinePool) (hfork : c ∉ s.forkQueue)
    (hqueue : ∀ σ ∈ s.errorQueue, s.status c ≠ .calling σ) :
    Tables { (s.unblock (s.status c)).setStatus c .running with control := .running c n } none := by
  have hother : ∀ c' σ, c' ≠ c → (s.status c').session? = some σ →
      s.sessionIdCoroutine.get σ = some (.co c') := by
    intro c' σ hne hσ
    rcases h.entry c' σ hσ with heq | hentry
    · exact absurd (Option.some.inj heq).symm hne
    · exact hentry
  have hsession : ∀ token σ, (s.status c).token? = some (token, σ) →
      (s.status c).session? = some σ := fun _ _ => session?_of_token?
  have hwaiting : ∀ token σ, s.status c = .waiting σ token → (s.status c).session? = some σ := by
    intro token σ hst
    rw [hst]
    rfl
  have howner := h.owner
  have hasleep := h.asleep
  have hcalls := h.calls
  unfold Quiet at hquiet
  rw [unblock_eq]
  unfold Scheduler.setStatus
  constructor
  · intro σ hσ
    show (s.unblock (s.status c)).sessionIdCoroutine.get σ = none
    have hnone := h.fresh σ hσ
    apply Option.eq_none_iff_forall_ne_some.mpr
    intro e he
    rw [unblock_sessionIdCoroutine, hnone] at he
    cases he.1
  · intro σ c' hc'
    exact h.known σ c' (unblock_sessionIdCoroutine.mp hc').1
  · have := h.born
    grind -ring -linarith [Function.update]
  · intro c'
    show update s.status c .running c' = .running ↔ ∃ k, Control.running c n = .running c' k
    by_cases heq : c' = c
    · rw [heq, update_self]
      exact ⟨fun _ => ⟨n, rfl⟩, fun _ => rfl⟩
    · rw [update_of_ne heq]
      refine ⟨fun hc' => absurd hc' (hquiet c'), fun ⟨k, hk⟩ => ?_⟩
      cases hk
      exact absurd rfl heq
  · intro c' σ hσ
    show none = some c' ∨ (s.unblock (s.status c)).sessionIdCoroutine.get σ = some (.co c')
    rw [unblock_sessionIdCoroutine]
    grind -ring -linarith [Function.update]
  · grind -ring -linarith [Function.update]
  · have := h.old
    grind -ring -linarith [Function.update]
  · intro c' token σ htoken
    change (update s.status c .running c').token? = some (token, σ) at htoken
    show (s.unblock (s.status c)).sleepSession.get token = some σ
    have hne : c' ≠ c := by
      rintro rfl
      rw [update_self] at htoken
      cases htoken
    rw [update_of_ne hne] at htoken
    rw [unblock_sleepSession]
    refine ⟨h.asleep c' token σ htoken, ?_⟩
    intro σ' htoken'
    have heq : σ' = σ :=
      Option.some.inj ((h.asleep c token σ' htoken').symm.trans (h.asleep c' token σ htoken))
    subst heq
    exact hne (h.owner c' c σ' (session?_of_token? htoken) (session?_of_token? htoken'))
  · intro token σ hsleep
    obtain ⟨hsleep, hnot⟩ := unblock_sleepSession.mp hsleep
    obtain ⟨c', hc'⟩ := h.sleeper token σ hsleep
    refine ⟨c', ?_⟩
    grind -ring -linarith [Function.update]
  · intro c' σ hcall
    change update s.status c .running c' = .calling σ at hcall
    show ((s.unblock (s.status c)).watchingSession.get σ).isSome
    have hne : c' ≠ c := by
      rintro rfl
      rw [update_self] at hcall
      cases hcall
    rw [update_of_ne hne] at hcall
    rw [unblock_watchingSession]
    refine ⟨h.calls c' σ hcall, ?_⟩
    intro hcall'
    exact hne (h.owner c' c σ (by rw [hcall]; rfl) (by rw [hcall']; rfl))
  · intro σ hwatch
    obtain ⟨hwatch, hnot⟩ := unblock_watchingSession.mp hwatch
    obtain ⟨c', hc'⟩ := h.caller σ hwatch
    refine ⟨c', ?_⟩
    grind -ring -linarith [Function.update]
  · have := h.pool
    grind -ring -linarith [Function.update]
  · exact h.poolOnce
  · have := h.forked
    grind -ring -linarith [Function.update]
  · have := h.forkOnce
    grind -ring -linarith [Function.update]
  · exact nofun
  · intro σ hσ
    exact unblock_watchingSession.mpr ⟨h.queued σ hσ, hqueue σ hσ⟩
  · exact h.queuedOnce

theorem resume_pooled (h : s.status c = .pooled) :
    s.resume c n = { s.setStatus c .spoiled with control := .errors n } := by
  unfold Scheduler.resume
  rw [h]

theorem resume_spoiled (h : s.status c = .spoiled) :
    s.resume c n = { s.setStatus c .dead with control := .crashed c } := by
  unfold Scheduler.resume
  rw [h]

theorem resume_dead (h : s.status c = .dead) :
    s.resume c n = { s with control := .crashed c } := by
  unfold Scheduler.resume
  rw [h]

theorem resume_live (hpooled : s.status c ≠ .pooled) (hspoiled : s.status c ≠ .spoiled)
    (hdead : s.status c ≠ .dead) :
    s.resume c n =
      { (s.unblock (s.status c)).setStatus c .running with control := .running c n } := by
  unfold Scheduler.resume
  split
  · exact absurd ‹_› hpooled
  · exact absurd ‹_› hspoiled
  · exact absurd ‹_› hdead
  · rfl

/-- What `resume` changes. -/
theorem resume_spec (s : Scheduler) (c : Co) (n : ℕ) :
    ∃ st control entries sleeps watches,
      s.resume c n = { s with
        status := update s.status c st, control := control, sessionIdCoroutine := entries,
        sleepSession := sleeps, watchingSession := watches } ∧
      st.session? = none ∧
      (control = .errors n ∧ s.status c = .pooled ∨ control = .crashed c ∨
        control = .running c n) ∧
      (∀ token σ, sleeps.get token = some σ ↔
        s.sleepSession.get token = some σ ∧ ∀ σ', (s.status c).token? ≠ some (token, σ')) := by
  have hsame : (s.status c).token? = none → ∀ (token : Token) σ,
      s.sleepSession.get token = some σ ↔
        s.sleepSession.get token = some σ ∧ ∀ σ', (s.status c).token? ≠ some (token, σ') := by
    intro hnone token σ
    rw [hnone]
    exact ⟨fun hσ => ⟨hσ, nofun⟩, And.left⟩
  by_cases hpooled : s.status c = .pooled
  · exact ⟨.spoiled, .errors n, s.sessionIdCoroutine, s.sleepSession, s.watchingSession,
      resume_pooled hpooled, rfl, Or.inl ⟨rfl, hpooled⟩, hsame (by rw [hpooled]; rfl)⟩
  · by_cases hspoiled : s.status c = .spoiled
    · exact ⟨.dead, .crashed c, s.sessionIdCoroutine, s.sleepSession, s.watchingSession,
        resume_spoiled hspoiled, rfl, Or.inr (Or.inl rfl), hsame (by rw [hspoiled]; rfl)⟩
    · by_cases hdead : s.status c = .dead
      · refine ⟨.dead, .crashed c, s.sessionIdCoroutine, s.sleepSession, s.watchingSession, ?_, rfl,
          Or.inr (Or.inl rfl), hsame (by rw [hdead]; rfl)⟩
        rw [resume_dead hdead, ← hdead, update_eq_self]
      · refine ⟨.running, .running c n, (s.unblock (s.status c)).sessionIdCoroutine,
          (s.unblock (s.status c)).sleepSession, (s.unblock (s.status c)).watchingSession, ?_, rfl,
          Or.inr (Or.inr rfl), fun token σ => unblock_sleepSession⟩
        rw [resume_live hpooled hspoiled hdead, unblock_eq]
        rfl

/-- To resume a coroutine keeps the tables. -/
theorem Tables.resume (h : Tables s (some c)) (hquiet : Quiet s) (hlt : c < s.born)
    (hfork : c ∈ s.forkQueue → s.status c = .dead)
    (hqueue : ∀ σ ∈ s.errorQueue, s.status c ≠ .calling σ) : Tables (s.resume c n) none := by
  -- a coroutine that does not wait is not missed in `session_id_coroutine`
  have htight : ∀ {s' : Scheduler}, Tables s' (some c) → (s'.status c).session? = none →
      Tables s' none := by
    intro s' h' hst
    refine { h' with entry := fun c' σ hσ => ?_ }
    rcases h'.entry c' σ hσ with heq | hentry
    · cases heq
      rw [hst] at hσ
      cases hσ
    · exact Or.inr hentry
  have hfree : ∀ st : Status, st.session? = none → ((update s.status c st) c).session? = none := by
    intro st hst
    rw [update_self]
    exact hst
  by_cases hpooled : s.status c = .pooled
  · rw [resume_pooled hpooled]
    refine htight (h.change .spoiled (.errors n) ?_ rfl (born_iff hlt) le_rfl nofun
      (running_iff .spoiled _ (fun c' hc' => absurd hc' (hquiet c')) nofun nofun)
      (fun _ => Or.inr (Or.inl rfl)) ?_ nofun) (hfree .spoiled rfl)
    · rw [hpooled]
      rfl
    · intro hmem
      rw [hfork hmem] at hpooled
      cases hpooled
  · by_cases hspoiled : s.status c = .spoiled
    · rw [resume_spoiled hspoiled]
      refine htight (h.change .dead (.crashed c) ?_ rfl (born_iff hlt) le_rfl nofun
        (running_iff .dead _ (fun c' hc' => absurd hc' (hquiet c')) nofun nofun)
        (fun _ => Or.inr (Or.inr rfl)) (fun _ => rfl) nofun) (hfree .dead rfl)
      rw [hspoiled]
      rfl
    · by_cases hdead : s.status c = .dead
      · rw [resume_dead hdead]
        refine htight (h.control (.crashed c) hquiet nofun nofun) ?_
        show (s.status c).session? = none
        rw [hdead]
        rfl
      · rw [resume_live hpooled hspoiled hdead]
        refine h.run hquiet hlt ?_ (fun hmem => hdead (hfork hmem)) hqueue
        intro hmem
        rcases h.pool c hmem with heq | heq | heq
        · exact hpooled heq
        · exact hspoiled heq
        · exact hdead heq

/-! ## Sessions -/

/-- What stands for a coroutine in `session_id_coroutine` is taken away. -/
theorem Tables.setEntry (h : Tables s none) (hσ : s.sessionIdCoroutine.get σ = some (.co c))
    (entry : Option Entry) (hentry : ∀ c', entry ≠ some (.co c')) :
    Tables (s.setEntry σ entry) (some c) := by
  have hold := h.entry
  refine { h with fresh := fun σ' hσ' => ?_, known := fun σ' c' hc' => ?_,
                  entry := fun c' σ' hc' => ?_ }
  · show (s.sessionIdCoroutine.set σ entry).get σ' = none
    have := h.fresh σ' hσ'
    grind -ring -linarith
  · have := h.known σ' c'
    change (s.sessionIdCoroutine.set σ entry).get σ' = _ at hc'
    show c' < s.born
    grind -ring -linarith
  · show some c = some c' ∨ (s.sessionIdCoroutine.set σ entry).get σ' = some (.co c')
    change (s.status c').session? = some σ' at hc'
    grind -ring -linarith

/-- What stands for no coroutine is taken away. -/
theorem Tables.clearEntry (h : Tables s none) (hσ : s.sessionIdCoroutine.get σ = some .brk) :
    Tables (s.setEntry σ none) none := by
  have hold := h.entry
  refine { h with fresh := fun σ' hσ' => ?_, known := fun σ' c' hc' => ?_,
                  entry := fun c' σ' hc' => ?_ }
  · show (s.sessionIdCoroutine.set σ none).get σ' = none
    have := h.fresh σ' hσ'
    grind -ring -linarith
  · have := h.known σ' c'
    change (s.sessionIdCoroutine.set σ none).get σ' = _ at hc'
    show c' < s.born
    grind -ring -linarith
  · show none = some c' ∨ (s.sessionIdCoroutine.set σ none).get σ' = some (.co c')
    change (s.status c').session? = some σ' at hc'
    grind -ring -linarith

/-- A session that nothing waits for stands for a coroutine. -/
theorem Tables.enter (h : Tables s none) (hσ : σ ≤ s.sessions)
    (hnew : ∀ c', (s.status c').session? ≠ some σ) (hc : c < s.born) :
    Tables (s.setEntry σ (some (.co c))) none := by
  have hentry := h.entry
  refine { h with fresh := fun σ' hσ' => ?_, known := fun σ' c' hc' => ?_,
                  entry := fun c' σ' hc' => ?_ }
  · show (s.sessionIdCoroutine.set σ (some (.co c))).get σ' = none
    change s.sessions < σ' at hσ'
    have := h.fresh σ' hσ'
    grind -ring -linarith
  · have := h.known σ' c'
    change (s.sessionIdCoroutine.set σ (some (.co c))).get σ' = _ at hc'
    show c' < s.born
    grind -ring -linarith
  · show none = some c' ∨ (s.sessionIdCoroutine.set σ (some (.co c))).get σ' = some (.co c')
    change (s.status c').session? = some σ' at hc'
    grind -ring -linarith

theorem Tables.newSession (h : Tables s none) : Tables s.newSession none :=
  { h with
    fresh := fun σ hσ => h.fresh σ (Nat.lt_of_succ_lt hσ)
    old := fun c σ hσ => (h.old c σ hσ).trans (Nat.le_succ _) }

/-- A new session stands for a coroutine. -/
theorem Tables.newEntry (h : Tables s none) (hc : c < s.born) :
    Tables (s.newSession.setEntry (s.sessions + 1) (some (.co c))) none := by
  refine h.newSession.enter le_rfl (fun c' hc' => ?_) hc
  exact Nat.not_succ_le_self _ (h.old c' _ hc')

/-! ## The coroutine that runs -/

theorem Tables.running_facts (h : Tables s loose) (hc : s.status c = .running) :
    c < s.born ∧ c ∉ s.coroutinePool ∧ c ∉ s.forkQueue := by
  refine ⟨?_, ?_, ?_⟩
  · by_contra hle
    rw [(h.born c).mpr (not_lt.mp hle)] at hc
    cases hc
  · intro hmem
    have := h.pool c hmem
    rw [hc] at this
    simp at this
  · intro hmem
    have := h.forked c hmem
    rw [hc] at this
    simp at this

theorem Tables.fork (h : Tables s none) (hcontrol : s.control ≠ .idle)
    (hfork : s.fork reuse = some s') : Tables s' none := by
  obtain ⟨⟨c, s₁⟩, hcreate, rfl⟩ := Option.map_eq_some_iff.mp hfork
  have h₁ := h.coCreate hcreate
  obtain ⟨st, pool, born, rfl, hst, hfree, -⟩ := coCreate_spec h hcreate
  have hforked := h.forked c
  refine { h₁ with forked := fun c' hc' => ?_, forkOnce := fun c' hc' => ?_,
                   idle := fun hidle => absurd hidle hcontrol }
  · rcases List.mem_append.mp hc' with hmem | hmem
    · exact h₁.forked c' hmem
    · obtain rfl := List.mem_singleton.mp hmem
      show update s.status c' st c' = _ ∨ update s.status c' st c' = _
      rw [update_self]
      exact hst.imp And.left id
  · show (s.forkQueue ++ [c]).count c' ≤ 1
    change update s.status c st c' = .ready none at hc'
    have honce := h₁.forkOnce c' hc'
    change s.forkQueue.count c' ≤ 1 at honce
    rw [List.count_append, List.count_singleton]
    by_cases heq : c = c'
    · -- it was not forked before
      have hmem : c' ∉ s.forkQueue := by
        subst heq
        rw [update_self] at hc'
        grind -ring -linarith
      rw [List.count_eq_zero_of_not_mem hmem]
      split <;> omega
    · have hne : (c == c') = false := by simpa using heq
      rw [hne]
      simpa using honce

theorem Tables.timeout (h : Tables s none) (htimeout : s.timeout reuse = some s') :
    Tables s' none := by
  obtain ⟨⟨c, s₁⟩, hcreate, rfl⟩ := Option.map_eq_some_iff.mp htimeout
  have h₁ := h.newSession.coCreate hcreate
  obtain ⟨st, pool, born, rfl, hst, hfree, -, -, -, -, hborn⟩ :=
    coCreate_spec h.newSession hcreate
  have hlt : c < born := by
    by_contra hle
    exact ((hborn c).mp (not_lt.mp hle)).2 rfl
  have hst' : st.session? = none := by
    rcases hst with ⟨rfl, -⟩ | rfl
    all_goals rfl
  refine h₁.enter le_rfl (fun c' hc' => ?_) hlt
  -- the session is new
  have hold := h.old c' (s.sessions + 1)
  change (update s.status c st c').session? = _ at hc'
  by_cases heq : c' = c
  · rw [heq, update_self, hst'] at hc'
    cases hc'
  · rw [update_of_ne heq] at hc'
    exact Nat.not_succ_le_self _ (hold hc')

/-- The coroutine that runs waits. -/
theorem Tables.block (h : Tables s none) (st : Status) (sleepSession : Table Token Session)
    (watchingSession : Table Session Address) (hc : s.status c = .running)
    (hst : st.session? = some σ) (hσ : s.sessionIdCoroutine.get σ = some (.co c))
    (hold : σ ≤ s.sessions)
    (hsleep : ∀ token σ', sleepSession.get token = some σ' ↔
      s.sleepSession.get token = some σ' ∨ st.token? = some (token, σ'))
    (hwatch : ∀ σ', (watchingSession.get σ').isSome ↔
      (s.watchingSession.get σ').isSome ∨ st = .calling σ') :
    Tables { s.setStatus c st with
      sleepSession := sleepSession
      watchingSession := watchingSession
      control := .wakeups n } none := by
  have hrunning : ∀ c', s.status c' = .running → c' = c := by
    intro c' hc'
    obtain ⟨k, hk⟩ := (h.running c).mp hc
    obtain ⟨k', hk'⟩ := (h.running c').mp hc'
    rw [hk] at hk'
    cases hk'
    rfl
  obtain ⟨hborn, hpool, hfork⟩ := h.running_facts hc
  have hne : st ≠ .running := by
    rintro rfl
    cases hst
  have hne' : st ≠ .unborn := by
    rintro rfl
    cases hst
  have hready : ∀ timer, st ≠ .ready timer := by
    rintro timer rfl
    cases hst
  have hentry := h.entry
  have howner : ∀ c', (s.status c').session? = some σ → c' = c := by
    intro c' hc'
    rcases h.entry c' σ hc' with heq | heq
    · cases heq
    · rw [hσ] at heq
      cases heq
      rfl
  unfold Scheduler.setStatus
  constructor
  · exact h.fresh
  · exact h.known
  · have := h.born
    grind -ring -linarith [Function.update]
  · exact running_iff st _ hrunning hne nofun
  · grind -ring -linarith [Function.update]
  · have := h.owner
    grind -ring -linarith [Function.update]
  · have := h.old
    grind -ring -linarith [Function.update]
  · have := h.asleep
    grind -ring -linarith [Function.update]
  · intro token σ' hsleep'
    rcases (hsleep token σ').mp hsleep' with hold | hnew
    · obtain ⟨c', hc'⟩ := h.sleeper token σ' hold
      refine ⟨c', ?_⟩
      have := session?_of_token? hc'
      grind -ring -linarith [Function.update]
    · refine ⟨c, ?_⟩
      show (update s.status c st c).token? = _
      rw [update_self]
      exact hnew
  · have := h.calls
    grind -ring -linarith [Function.update]
  · intro σ' hwatch'
    rcases (hwatch σ').mp hwatch' with hold | hnew
    · obtain ⟨c', hc'⟩ := h.caller σ' hold
      refine ⟨c', ?_⟩
      grind -ring -linarith [Function.update]
    · refine ⟨c, ?_⟩
      show update s.status c st c = _
      rw [update_self]
      exact hnew
  · have := h.pool
    grind -ring -linarith [Function.update]
  · exact h.poolOnce
  · have := h.forked
    grind -ring -linarith [Function.update]
  · have := h.forkOnce
    grind -ring -linarith [Function.update]
  · exact nofun
  · exact fun σ' hσ' => (hwatch σ').mpr (Or.inl (h.queued σ' hσ'))
  · exact h.queuedOnce

theorem Tables.suspendSleep (h : Tables s none) (hc : s.status c = .running) {token : Token}
    {status : Session → Status} (hstatus : ∀ σ, status σ = .sleeping σ token ∨
      status σ = .waiting σ token) : Tables (s.suspendSleep c n token status) none := by
  have hnew := h.newEntry (h.running_facts hc).1
  unfold Scheduler.suspendSleep
  dsimp only
  have htoken : ∀ token' σ', (status (s.sessions + 1)).token? = some (token', σ') ↔
      token' = token ∧ σ' = s.sessions + 1 := by
    intro token' σ'
    rcases hstatus (s.sessions + 1) with heq | heq
    all_goals
      rw [heq, token?_eq_some]
      grind -ring -linarith
  cases hsleep : s.sleepSession.get token with
  | some σ =>
    simp only [Scheduler.setEntry, Scheduler.newSession, hsleep]
    exact hnew
  | none =>
    have hblock := hnew.block (n := n) (status (s.sessions + 1))
      (s.sleepSession.set token (some (s.sessions + 1))) s.watchingSession hc ?_ ?_ le_rfl ?_ ?_
    · simp only [Scheduler.setEntry, Scheduler.newSession, hsleep]
      exact hblock
    · rcases hstatus (s.sessions + 1) with heq | heq
      all_goals
        rw [heq]
        rfl
    · exact Table.get_set_self
    · intro token' σ'
      rw [htoken]
      show (s.sleepSession.set token _).get token' = some σ' ↔ s.sleepSession.get token' = _ ∨ _
      grind -ring -linarith
    · intro σ'
      refine ⟨Or.inl, fun hor => hor.resolve_right ?_⟩
      rcases hstatus (s.sessions + 1) with heq | heq
      all_goals
        rw [heq]
        exact nofun

theorem Tables.call (h : Tables s none) (hc : s.status c = .running) (addr : Address) :
    Tables (s.call c n addr) none := by
  have hnew := h.newEntry (h.running_facts hc).1
  have hblock := hnew.block (n := n) (.calling (s.sessions + 1)) s.sleepSession
    (s.watchingSession.set (s.sessions + 1) (some addr)) hc rfl Table.get_set_self le_rfl
    (fun token σ' => ?_) fun σ' => ?_
  · exact { hblock with }
  · exact (or_iff_left nofun).symm
  · show ((s.watchingSession.set _ _).get σ').isSome ↔ (s.watchingSession.get σ').isSome ∨ _
    grind -ring -linarith

theorem mem_pairs_filter {source : Address} :
    σ ∈ (s.watchingSession.pairs.filter fun e => e.2 = source).map Prod.fst ↔
      s.watchingSession.get σ = some source := by
  rw [List.mem_map]
  constructor
  · rintro ⟨⟨σ', address⟩, hmem, rfl⟩
    obtain ⟨hpair, haddress⟩ := List.mem_filter.mp hmem
    obtain rfl : address = source := of_decide_eq_true haddress
    exact Table.mem_pairs.mp hpair
  · intro hget
    exact ⟨(σ, source), List.mem_filter.mpr ⟨Table.mem_pairs.mpr hget, decide_eq_true rfl⟩, rfl⟩

/-- The sessions that `_error_dispatch` puts into the queue. -/
def Scheduler.Fails (s : Scheduler) (session : Session) (source : Address) (σ : Session) : Prop :=
  if session = 0 then s.watchingSession.get σ = some source
  else σ = session ∧ (s.watchingSession.get σ).isSome

/-- `_error_dispatch` queues each of the sessions once. -/
theorem queueErrors_spec {session : Session} {source : Address} {order : List Session}
    (hqueue : s.queueErrors session source order = some s') :
    ∃ new : List Session, new.Nodup ∧ (∀ σ, σ ∈ new ↔ s.Fails session source σ) ∧
      s' = { s with errorQueue := s.errorQueue ++ new, log := s.log ++ new.map .queued } := by
  unfold Scheduler.queueErrors at hqueue
  unfold Scheduler.Fails
  split_ifs at hqueue with hzero hperm hwatch
  · cases hqueue
    refine ⟨order, ?_, fun σ => ?_, rfl⟩
    · rw [hperm.nodup_iff]
      exact (s.watchingSession.nodup_pairs).sublist (List.filter_sublist.map _)
    · rw [if_pos hzero, hperm.mem_iff, mem_pairs_filter]
  · cases hqueue
    refine ⟨[session], List.nodup_singleton _, fun σ => ?_, rfl⟩
    rw [if_neg hzero, List.mem_singleton]
    constructor
    · rintro rfl
      exact ⟨rfl, hwatch⟩
    · exact And.left
  · cases hqueue
    refine ⟨[], List.nodup_nil, fun σ => ?_, by simp⟩
    rw [if_neg hzero]
    constructor
    · exact nofun
    · rintro ⟨rfl, hsome⟩
      exact absurd hsome hwatch

/-- The sessions that fail are not in the queue yet. -/
def Scheduler.FailsOnce (s : Scheduler) (session : Session) (source : Address) : Prop :=
  ∀ σ ∈ s.errorQueue, ¬ s.Fails session source σ

instance (s : Scheduler) (session : Session) (source : Address) (σ : Session) :
    Decidable (s.Fails session source σ) :=
  inferInstanceAs (Decidable (if session = 0 then _ = _ else _ ∧ _))

instance (s : Scheduler) (session : Session) (source : Address) :
    Decidable (s.FailsOnce session source) :=
  inferInstanceAs (Decidable (∀ σ ∈ s.errorQueue, ¬ s.Fails session source σ))

theorem Tables.queueErrors (h : Tables s none) {session : Session} {source : Address}
    {order : List Session} (honce : s.FailsOnce session source)
    (hqueue : s.queueErrors session source order = some s') : Tables s' none := by
  obtain ⟨new, hnodup, hnew, rfl⟩ := queueErrors_spec hqueue
  refine { h with queued := fun σ hσ => ?_, queuedOnce := ?_ }
  · rcases List.mem_append.mp hσ with hmem | hmem
    · exact h.queued σ hmem
    · have hfails := (hnew σ).mp hmem
      unfold Scheduler.Fails at hfails
      show (s.watchingSession.get σ).isSome
      split at hfails
      · rw [hfails]
        rfl
      · exact hfails.2
  · exact List.nodup_append.mpr ⟨h.queuedOnce, hnodup, fun σ hσ σ' hσ' heq =>
      honce σ hσ ((hnew σ).mp (heq ▸ hσ'))⟩

/-- Apart from the coroutine none runs, and it is neither in the pool nor in the fork queue. -/
structure Alone (s : Scheduler) (c : Co) : Prop where
  free : (s.status c).session? = none
  born : c < s.born
  pool : c ∉ s.coroutinePool
  forked : c ∉ s.forkQueue
  quiet : ∀ c', s.status c' = .running → c' = c

theorem Tables.alone (h : Tables s none) (hc : s.status c = .running) : Alone s c := by
  obtain ⟨hborn, hpool, hfork⟩ := h.running_facts hc
  refine ⟨by rw [hc]; rfl, hborn, hpool, hfork, fun c' hc' => ?_⟩
  obtain ⟨k, hk⟩ := (h.running c).mp hc
  obtain ⟨k', hk'⟩ := (h.running c').mp hc'
  rw [hk] at hk'
  cases hk'
  rfl

/-- A coroutine stops. -/
theorem Tables.stop (h : Tables s none) (st : Status) (control : Control) (ha : Alone s c)
    (hst : st.session? = none) (hne : st ≠ .unborn) (hrun : st ≠ .running)
    (hcontrol : ∀ c n, control ≠ .running c n) (hidle : control ≠ .idle) :
    Tables { s.setStatus c st with control := control } none :=
  h.change st control ha.free hst (born_iff ha.born) le_rfl hne
    (running_iff st control ha.quiet hrun hcontrol) (fun hmem => absurd hmem ha.pool)
    (fun hmem => absurd hmem ha.forked) fun heq => absurd heq hidle

theorem Tables.recycle (h : Tables s none) (ha : Alone s c) : Tables (s.recycle c n) none := by
  have hstop := h.stop .pooled (.wakeups n) ha rfl nofun nofun nofun nofun
  refine { hstop with pool := fun c' hc' => ?_, poolOnce := ?_ }
  · rcases List.mem_append.mp hc' with hmem | hmem
    · exact hstop.pool c' hmem
    · obtain rfl := List.mem_singleton.mp hmem
      show update s.status c' .pooled c' = _ ∨ _
      rw [update_self]
      exact Or.inl rfl
  · show (s.coroutinePool ++ [c]).Nodup
    rw [List.nodup_append_comm, List.singleton_append, List.nodup_cons]
    exact ⟨ha.pool, h.poolOnce⟩

theorem Tables.die (h : Tables s none) (ha : Alone s c) : Tables (s.die c) none :=
  h.stop .dead (.crashed c) ha rfl nofun nofun nofun nofun

theorem Tables.quit (h : Tables s none) (ha : Alone s c) : Tables (s.quit c n) none := by
  have hstop := h.stop .quit (.errors n) ha rfl nofun nofun nofun nofun
  exact { hstop with
    forked := fun c' hc' => absurd hc' List.not_mem_nil
    forkOnce := fun c' _ => Nat.zero_le _
    idle := nofun }

/-! ## The main thread -/

/-- `session_id_coroutine` has lost the coroutine that is resumed. -/
theorem Tables.resumeSession (h : Tables s (some c)) (hquiet : Quiet s) (hborn : c < s.born)
    (hfork : c ∈ s.forkQueue → s.status c = .dead)
    (hqueue : ∀ σ ∈ s.errorQueue, s.status c ≠ .calling σ) (how : How) :
    Tables (s.resumeSession c σ how n) none := by
  have hrecord : Tables (s.record (if (s.status c).awaits σ how then .resumed σ how
      else .misresumed σ)) (some c) := { h with }
  exact hrecord.resume hquiet hborn hfork hqueue

theorem resumeSession_of_awaits {how : How} (h : (s.status c).awaits σ how) (n : ℕ) :
    s.resumeSession c σ how n = (s.record (.resumed σ how)).resume c n := by
  unfold Scheduler.resumeSession
  rw [if_pos h]

theorem awaits_of_token? {st : Status} {token : Token} (h : st.token? = some (token, σ)) :
    st.awaits σ .brk := by
  rcases token?_eq_some.mp h with rfl | rfl
  all_goals rfl

theorem Tables.throw (h : Tables s none) (hquiet : Quiet s) : Tables s.throw none := by
  have hcontrol := h.control .forks hquiet nofun nofun
  exact { hcontrol with }

/-- What the session stands for does not wait for a session in the error queue. -/
def Scheduler.Unqueued (s : Scheduler) (σ : Session) : Prop :=
  ∀ c, s.sessionIdCoroutine.get σ = some (.co c) → ∀ σ' ∈ s.errorQueue, s.status c ≠ .calling σ'

theorem Tables.quiet_of_control (h : Tables s loose) {control : Control}
    (hcontrol : s.control = control) (hne : ∀ c n, control ≠ .running c n) : Quiet s :=
  h.quiet fun c n hc => hne c n (hcontrol.symm.trans hc)

theorem Tables.dispatchResponse (h : Tables s none) (hidle : s.control = .idle)
    (hqueue : s.Unqueued σ) (msg : Msg) : Tables (s.dispatchResponse σ msg) none := by
  have hquiet : Quiet s := h.quiet_of_control hidle fun _ _ heq => by cases heq
  have hnone : s.forkQueue = [] := h.idle hidle
  have hrecord : Tables (s.begin.record (.responded σ msg)) none := { h with }
  unfold Scheduler.dispatchResponse
  dsimp only
  split
  · exact (hrecord.clearEntry ‹_›).control .forks hquiet nofun nofun
  · exact hrecord.throw hquiet
  · rename_i co hco
    refine (hrecord.setEntry hco none fun _ heq => by cases heq).resumeSession hquiet
      (h.known σ co hco) ?_ (hqueue co hco) _
    intro hmem
    change co ∈ s.forkQueue at hmem
    rw [hnone] at hmem
    cases hmem

theorem token_entry (h : Tables s none) {token : Token} (hσ : s.sleepSession.get token = some σ) :
    ∃ c, (s.status c).token? = some (token, σ) ∧
      s.sessionIdCoroutine.get σ = some (.co c) := by
  obtain ⟨c, hc⟩ := h.sleeper token σ hσ
  rcases h.entry c σ (session?_of_token? hc) with heq | hentry
  · cases heq
  · exact ⟨c, hc, hentry⟩

/-- `dispatch_wakeup` resumes a coroutine that sleeps with the token. -/
theorem dispatchWakeup_token {token : Token} {queue : List Token}
    (h : Tables s none) (hqueue : s.wakeupQueue = token :: queue)
    (hσ : s.sleepSession.get token = some σ) (n : ℕ) :
    ∃ c, (s.status c).token? = some (token, σ) ∧ s.sessionIdCoroutine.get σ = some (.co c) ∧
      s.dispatchWakeup n =
        ({ s with wakeupQueue := queue }.setEntry σ (some .brk)).resumeSession c σ .brk
          (n + 1) := by
  obtain ⟨c, hc, hentry⟩ := token_entry h hσ
  refine ⟨c, hc, hentry, ?_⟩
  unfold Scheduler.dispatchWakeup
  rw [hqueue]
  simp only [hσ, hentry]

theorem dispatchWakeup_nil (hqueue : s.wakeupQueue = []) (n : ℕ) :
    s.dispatchWakeup n = { s with control := .errors (n + 1) } := by
  unfold Scheduler.dispatchWakeup
  split
  · rfl
  · rename_i heq
    rw [hqueue] at heq
    cases heq

theorem dispatchWakeup_stale {token : Token} {queue : List Token}
    (hqueue : s.wakeupQueue = token :: queue) (hσ : s.sleepSession.get token = none) (n : ℕ) :
    s.dispatchWakeup n = { s with wakeupQueue := queue, control := .errors (n + 1) } := by
  unfold Scheduler.dispatchWakeup
  rw [hqueue]
  simp only [hσ]

theorem Tables.dispatchWakeup (h : Tables s none) (hcontrol : s.control = .wakeups n) :
    Tables (s.dispatchWakeup n) none := by
  have hquiet : Quiet s := h.quiet_of_control hcontrol fun _ _ heq => by cases heq
  have hstop := h.control (.errors (n + 1)) hquiet nofun nofun
  cases hqueue : s.wakeupQueue with
  | nil =>
    rw [dispatchWakeup_nil hqueue]
    exact hstop
  | cons token queue =>
    cases hσ : s.sleepSession.get token with
    | none =>
      rw [dispatchWakeup_stale hqueue hσ]
      exact { hstop with }
    | some σ =>
      obtain ⟨c, hc, hentry, heq⟩ := dispatchWakeup_token h hqueue hσ n
      have hpop : Tables { s with wakeupQueue := queue } none := { h with }
      rw [heq]
      refine (hpop.setEntry hentry (some .brk) fun _ heq => by cases heq).resumeSession
        hquiet (h.known σ c hentry) ?_ ?_ _
      · intro hmem
        have hforked := h.forked c hmem
        rcases token?_eq_some.mp hc with hst | hst
        all_goals
          rw [hst] at hforked
          simp at hforked
      · intro σ' _ hcall
        change s.status c = .calling σ' at hcall
        rw [hcall] at hc
        cases hc

/-- `dispatch_error_queue` resumes the coroutine that calls with the session. -/
theorem dispatchErrorQueue_session {queue : List Session} (h : Tables s none)
    (hqueue : s.errorQueue = σ :: queue) (n : ℕ) :
    ∃ c, s.status c = .calling σ ∧ s.sessionIdCoroutine.get σ = some (.co c) ∧
      s.dispatchErrorQueue (n + 1) =
        (({ s with errorQueue := queue } : Scheduler).setEntry σ none).resumeSession c σ .failure
          n := by
  have hmem : σ ∈ s.errorQueue := by
    rw [hqueue]
    exact List.mem_cons_self ..
  obtain ⟨c, hc⟩ := h.caller σ (h.queued σ hmem)
  have hentry : s.sessionIdCoroutine.get σ = some (.co c) :=
    (h.entry c σ (by rw [hc]; rfl)).resolve_left nofun
  refine ⟨c, hc, hentry, ?_⟩
  unfold Scheduler.dispatchErrorQueue
  rw [hqueue]
  simp only [hentry]
  rfl

theorem dispatchErrorQueue_nil (hqueue : s.errorQueue = []) (n : ℕ) :
    s.dispatchErrorQueue (n + 1) = { s with control := .errors n } := by
  unfold Scheduler.dispatchErrorQueue
  dsimp only
  split
  · rfl
  · rename_i heq
    rw [hqueue] at heq
    cases heq

theorem Tables.dispatchErrorQueue (h : Tables s none) (hcontrol : s.control = .errors n) :
    Tables (s.dispatchErrorQueue n) none := by
  have hquiet : Quiet s := h.quiet_of_control hcontrol fun _ _ heq => by cases heq
  cases n with
  | zero => exact h.control .forks hquiet nofun nofun
  | succ n =>
    cases hqueue : s.errorQueue with
    | nil =>
      rw [dispatchErrorQueue_nil hqueue]
      exact h.control (.errors n) hquiet nofun nofun
    | cons σ queue =>
      obtain ⟨c, hc, hentry, heq⟩ := dispatchErrorQueue_session h hqueue n
      have honce := h.queuedOnce
      rw [hqueue, List.nodup_cons] at honce
      have hpop : Tables { s with errorQueue := queue } none :=
        { h with
          queued := fun σ' hσ' => h.queued σ' (by rw [hqueue]; exact List.mem_cons_of_mem _ hσ')
          queuedOnce := honce.2 }
      rw [heq]
      refine (hpop.setEntry hentry none fun _ heq => by cases heq).resumeSession
        hquiet (h.known σ c hentry) ?_ ?_ _
      · intro hmem
        have hforked := h.forked c hmem
        rw [hc] at hforked
        simp at hforked
      · intro σ' hσ' hcall
        change s.status c = .calling σ' at hcall
        rw [hc] at hcall
        cases hcall
        exact honce.1 hσ'

/-! ## Steps -/

/-- No session comes into the error queue twice, and a RESPONSE is not for one that is there. -/
def Scheduler.Steady (s : Scheduler) : Act → Prop
  | .response σ _ => s.Unqueued σ
  | .error session source _ _ => s.FailsOnce session source
  | .term service _ => s.FailsOnce 0 service
  | _ => True

/-- The coroutine for a message waits for its arguments, or is dead. -/
theorem coCreate_message (h : Tables s none) (hidle : s.control = .idle)
    (hcreate : s.begin.coCreate none reuse = some (c, s')) :
    Tables s' none ∧ Quiet s' ∧ c < s'.born ∧ s'.forkQueue = [] ∧
      s'.watchingSession = s.watchingSession ∧ s'.errorQueue = s.errorQueue ∧
      c ∉ s'.coroutinePool ∧ (s'.status c = .ready none ∨ s'.status c = .dead) := by
  have hquiet : Quiet s := h.quiet_of_control hidle fun _ _ heq => by cases heq
  have hbegin : Tables s.begin none := { h with }
  have h' := hbegin.coCreate hcreate
  obtain ⟨st, pool, born, rfl, hst, -, -, -, hmem, -, hborn⟩ := coCreate_spec hbegin hcreate
  refine ⟨h', fun c' hc' => ?_, ?_, h.idle hidle, rfl, rfl, hmem, ?_⟩
  · change update s.status c st c' = .running at hc'
    by_cases heq : c' = c
    · rw [heq, update_self] at hc'
      rcases hst with ⟨rfl, -⟩ | rfl
      all_goals cases hc'
    · rw [update_of_ne heq] at hc'
      exact hquiet c' hc'
  · by_contra hle
    exact ((hborn c).mp (not_lt.mp hle)).2 rfl
  · show update s.status c st c = _ ∨ update s.status c st c = _
    rw [update_self]
    exact hst.imp And.left id

theorem Tables.loosen (h : Tables s none) (c : Co) : Tables s (some c) :=
  { h with entry := fun c' σ hσ => Or.inr ((h.entry c' σ hσ).resolve_left nofun) }

theorem fork_control (hfork : s.fork reuse = some s') : s'.control = s.control := by
  obtain ⟨⟨c, s₁⟩, hcreate, rfl⟩ := Option.map_eq_some_iff.mp hfork
  show s₁.control = s.control
  unfold Scheduler.coCreate at hcreate
  cases reuse with
  | none =>
    cases hcreate
    rfl
  | some co =>
    dsimp only at hcreate
    split at hcreate
    · cases hcreate
      rfl
    · cases hcreate

theorem Tables.erase (h : Tables s none) (hcontrol : s.control = .forks) (c : Co) :
    Tables { s with forkQueue := s.forkQueue.erase c } none :=
  { h with
    forked := fun c' hc' => h.forked c' (List.mem_of_mem_erase hc')
    forkOnce := fun c' hc' => ((List.erase_sublist).count_le c').trans (h.forkOnce c' hc')
    idle := fun hidle => by
      change s.control = .idle at hidle
      rw [hcontrol] at hidle
      cases hidle }

/-- A step keeps the tables. -/
theorem Tables.moves {a : Act} (h : Tables s none) (hm : s.Moves a s') (hok : s.Steady a) :
    Tables s' none := by
  have hrun : ∀ {co pending}, s.control = .running co pending → s.status co = .running :=
    fun hc => (h.running _).mpr ⟨_, hc⟩
  cases hm with
  | response hidle => exact h.dispatchResponse hidle hok _
  | @error session source order reuse co s₁ s₂ hidle hcreate hlive hqueue =>
    obtain ⟨h₁, hquiet, hborn, hforks, hwatch, hqueued, hpool, hst⟩ :=
      coCreate_message h hidle hcreate
    have hready := hst.resolve_right hlive
    have honce : s₁.FailsOnce session source := by
      unfold Scheduler.FailsOnce Scheduler.Fails
      rw [hwatch, hqueued]
      exact hok
    have h₂ := h₁.queueErrors honce hqueue
    obtain ⟨new, -, -, rfl⟩ := queueErrors_spec hqueue
    refine h₂.recycle ⟨?_, hborn, hpool, ?_, fun c' hc' => absurd hc' (hquiet c')⟩
    · show (s₁.status co).session? = none
      rw [hready]
      rfl
    · show co ∉ s₁.forkQueue
      rw [hforks]
      exact List.not_mem_nil
  | errorDead hidle hcreate hdead =>
    obtain ⟨h₁, hquiet, -⟩ := coCreate_message h hidle hcreate
    exact h₁.control (.crashed _) hquiet nofun nofun
  | request hidle hcreate =>
    obtain ⟨h₁, hquiet, hborn, hforks, hwatch, hqueued, hpool, hst⟩ :=
      coCreate_message h hidle hcreate
    split
    · refine (h₁.loosen _).resume hquiet hborn ?_ ?_
      · rw [hforks]
        exact nofun
      · intro σ _ hcall
        rw [hcall] at hst
        simp at hst
    · exact h₁.throw hquiet
  | unknown hidle =>
    have hquiet : Quiet s := h.quiet_of_control hidle fun _ _ heq => by cases heq
    have hbegin : Tables s.begin none := { h with }
    split
    · exact hbegin.throw hquiet
    · exact hbegin.control .forks hquiet nofun nofun
  | answers => exact h
  | wakeup =>
    unfold Scheduler.wakeup
    split
    · exact { h with }
    · exact h
  | fork hc hfork => exact h.fork (fun heq => by rw [hc] at heq; cases heq) hfork
  | timeout hc htimeout => exact h.timeout htimeout
  | sleep hc => exact h.suspendSleep (hrun hc) fun σ => Or.inl rfl
  | wait hc => exact h.suspendSleep (hrun hc) fun σ => Or.inr rfl
  | call hc => exact h.call (hrun hc) _
  | term hc hqueue => exact h.queueErrors hok hqueue
  | exit hc => exact h.quit (h.alone (hrun hc))
  | finish hc => exact h.recycle (h.alone (hrun hc))
  | raise hc => exact h.die (h.alone (hrun hc))
  | dispatchWakeup hc => exact h.dispatchWakeup hc
  | dispatchErrorQueue hc => exact h.dispatchErrorQueue hc
  | crash hc hfork =>
    have h₁ := h.fork (fun heq => by rw [hc] at heq; cases heq) hfork
    have hcontrol := (fork_control hfork).trans hc
    exact h₁.throw (h₁.quiet_of_control hcontrol fun _ _ heq => by cases heq)
  | @nextFork co hc hmem =>
    have hst := h.forked co hmem
    refine ((h.erase hc co).loosen co).resume
      (h.quiet_of_control hc fun _ _ heq => by cases heq) ?_ ?_ ?_
    · show co < s.born
      by_contra hle
      rw [(h.born co).mpr (not_lt.mp hle)] at hst
      simp at hst
    · intro hmem'
      show s.status co = .dead
      refine hst.resolve_left fun hready => ?_
      have honce := h.forkOnce co hready
      have hcount := List.count_pos_iff.mpr hmem'
      rw [List.count_erase_self] at hcount
      omega
    · intro σ _ hcall
      change s.status co = .calling σ at hcall
      rw [hcall] at hst
      simp at hst
  | leave hc hnone =>
    exact h.control .idle (h.quiet_of_control hc fun _ _ heq => by cases heq) nofun fun _ => hnone

/-! ## skynet.exit -/

theorem resume_exited : (s.resume c n).exited = s.exited := by
  obtain ⟨st, control, entries, sleeps, watches, heq, -⟩ := resume_spec s c n
  rw [heq]

theorem coCreate_exited {timer : Option Session} {reuse : Option Co}
    (hcreate : s.coCreate timer reuse = some (c, s')) : s'.exited = s.exited := by
  unfold Scheduler.coCreate at hcreate
  cases reuse with
  | none =>
    cases hcreate
    rfl
  | some co =>
    dsimp only at hcreate
    split at hcreate
    · cases hcreate
      rfl
    · cases hcreate

theorem fork_exited {reuse : Option Co} (hfork : s.fork reuse = some s') :
    s'.exited = s.exited := by
  obtain ⟨⟨c, s₁⟩, hcreate, rfl⟩ := Option.map_eq_some_iff.mp hfork
  have hexited := coCreate_exited hcreate
  exact hexited

theorem timeout_exited {reuse : Option Co} (htimeout : s.timeout reuse = some s') :
    s'.exited = s.exited := by
  obtain ⟨⟨c, s₁⟩, hcreate, rfl⟩ := Option.map_eq_some_iff.mp htimeout
  have hexited := coCreate_exited hcreate
  exact hexited

theorem suspendSleep_exited {token : Token} {status : Session → Status} :
    (s.suspendSleep c n token status).exited = s.exited := by
  unfold Scheduler.suspendSleep
  dsimp only
  split <;> rfl

theorem dispatchResponse_exited {msg : Msg} : (s.dispatchResponse σ msg).exited = s.exited := by
  unfold Scheduler.dispatchResponse
  dsimp only
  split
  · rfl
  · rfl
  · exact resume_exited

theorem dispatchWakeup_exited : (s.dispatchWakeup n).exited = s.exited := by
  unfold Scheduler.dispatchWakeup
  split
  · rfl
  · dsimp only
    split
    · rfl
    · split
      · exact resume_exited
      · rfl

theorem dispatchErrorQueue_exited : (s.dispatchErrorQueue n).exited = s.exited := by
  unfold Scheduler.dispatchErrorQueue
  split
  · rfl
  · split
    · rfl
    · dsimp only
      split
      · exact resume_exited
      · rfl

/-- Once the service has left it stays so. -/
theorem exited_moves {a : Act} (hm : s.Moves a s') (hexit : s.exited = true) :
    s'.exited = true := by
  have hkeep : s'.exited = s.exited ∨ s'.exited = true := by
    cases hm with
    | response => exact Or.inl dispatchResponse_exited
    | error hidle hcreate hlive hqueue =>
      obtain ⟨new, -, -, rfl⟩ := queueErrors_spec hqueue
      have hexited := coCreate_exited hcreate
      exact Or.inl hexited
    | errorDead hidle hcreate =>
      have hexited := coCreate_exited hcreate
      exact Or.inl hexited
    | request hidle hcreate =>
      have hexited := coCreate_exited hcreate
      split
      · exact Or.inl (resume_exited.trans hexited)
      · exact Or.inl hexited
    | unknown => split <;> exact Or.inl rfl
    | wakeup =>
      unfold Scheduler.wakeup
      split <;> exact Or.inl rfl
    | fork hc hfork => exact Or.inl (fork_exited hfork)
    | timeout hc htimeout => exact Or.inl (timeout_exited htimeout)
    | sleep => exact Or.inl suspendSleep_exited
    | wait => exact Or.inl suspendSleep_exited
    | term hc hqueue =>
      obtain ⟨new, -, -, rfl⟩ := queueErrors_spec hqueue
      exact Or.inl rfl
    | exit => exact Or.inr rfl
    | dispatchWakeup => exact Or.inl dispatchWakeup_exited
    | dispatchErrorQueue => exact Or.inl dispatchErrorQueue_exited
    | crash hc hfork =>
      have hexited := fork_exited hfork
      exact Or.inl hexited
    | nextFork => exact Or.inl resume_exited
    | _ => exact Or.inl rfl
  rcases hkeep with heq | heq
  · exact heq.trans hexit
  · exact heq

end

end SkynetEureka.Coroutines
