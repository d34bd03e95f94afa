import SkynetEureka.Lib.Interleaving

/-!
# The threads of a node

`start` in `skynet_start.c` makes the workers, the timer and the socket thread. A worker that gets no queue
sleeps on a condition variable, and the other two wake it. Both read `m->sleep` without the mutex, so that
a signal may come before the worker waits, and is lost. When there are no contexts left the timer sets
`m->quit` and wakes all.

Two things are shown of all interleavings. `m->sleep` is the number of the workers that sleep, so that a
turn of the timer wakes one of those that wait (`sleeping_workers_woken`). And once `m->quit` is set, all
threads end after finitely many steps (`threads_end`): no worker is left waiting.
-/

namespace SkynetEureka.Scheduler.Start

open Lib

/-- `struct monitor`, with the mutex and the workers in `pthread_cond_wait` that have not been woken -/
structure Monitor where
  count : ℕ
  sleep : ℕ
  quit : Bool
  locked : Bool
  waiting : List ℕ
  deriving DecidableEq

/-- The next line of `thread_worker` -/
inductive Phase where
  /-- `while (!m->quit)` -/
  | test
  /-- `q = skynet_context_message_dispatch(sm, q, weight)` -/
  | dispatch
  /-- `pthread_mutex_lock(&m->mutex)` -/
  | lock
  /-- `++ m->sleep` -/
  | enter
  /-- `if (!m->quit)` -/
  | check
  /-- in `pthread_cond_wait`, until it has the mutex again -/
  | wait
  /-- `-- m->sleep` -/
  | leave
  /-- `pthread_mutex_unlock(&m->mutex)` -/
  | unlock
  deriving DecidableEq

/-- The next line of a thread. What comes from outside is given with it: whether each
`skynet_context_message_dispatch` returns a queue, how many turns the timer takes before
`skynet_context_total` is 0, what each `skynet_socket_poll` returns, and which worker a signal wakes. -/
inductive Thread where
  | worker (id : ℕ) (phase : Phase) (answers : List Bool)
  /-- `CHECK_ABORT` -/
  | timer (turns : List ℕ)
  /-- `wakeup(m,m->count-1)` -/
  | timerWake (i : ℕ) (turns : List ℕ)
  | timerLock
  /-- `m->quit = 1` -/
  | timerQuit
  | timerBroadcast
  | timerUnlock
  /-- `skynet_socket_poll`; `none` is a negative result that goes on, and no result left is 0 -/
  | socket (polls : List (Option ℕ))
  /-- `wakeup(m,0)` -/
  | socketWake (i : ℕ) (polls : List (Option ℕ))
  /-- A worker comes back from `pthread_cond_wait` without a signal. -/
  | spurious (i : ℕ)
  | ended
  deriving DecidableEq

/-- `pthread_cond_signal` wakes one of those that wait, if there is one. -/
def condSignal (m : Monitor) (i : ℕ) : Monitor :=
  { m with waiting := m.waiting.eraseIdx (i % m.waiting.length) }

def wakeup (m : Monitor) (busy : ℤ) (i : ℕ) : Monitor :=
  if (m.sleep : ℤ) ≥ m.count - busy then condSignal m i else m

def Phase.step (m : Monitor) (id : ℕ) (answers : List Bool) : Phase → Option (Monitor × Thread)
  | .test => some (m, if m.quit then .ended else .worker id .dispatch answers)
  | .dispatch =>
    match answers with
    | true :: answers => some (m, .worker id .test answers)
    | answers => some (m, .worker id .lock answers.tail)
  | .lock => if m.locked then none else some ({ m with locked := true }, .worker id .enter answers)
  | .enter => some ({ m with sleep := m.sleep + 1 }, .worker id .check answers)
  | .check =>
    if m.quit then some (m, .worker id .leave answers)
    else some ({ m with locked := false, waiting := id :: m.waiting }, .worker id .wait answers)
  | .wait =>
    if m.locked ∨ id ∈ m.waiting then none
    else some ({ m with locked := true }, .worker id .leave answers)
  | .leave => some ({ m with sleep := m.sleep - 1 }, .worker id .unlock answers)
  | .unlock => some ({ m with locked := false }, .worker id .test answers)

def Thread.step (m : Monitor) : Thread → Option (Monitor × Thread)
  | .worker id phase answers => phase.step m id answers
  | .timer [] => some (m, .timerLock)
  | .timer (i :: turns) => some (m, .timerWake i turns)
  | .timerWake i turns => some (wakeup m (m.count - 1) i, .timer turns)
  | .timerLock => if m.locked then none else some ({ m with locked := true }, .timerQuit)
  | .timerQuit => some ({ m with quit := true }, .timerBroadcast)
  | .timerBroadcast => some ({ m with waiting := [] }, .timerUnlock)
  | .timerUnlock => some ({ m with locked := false }, .ended)
  | .socket [] => some (m, .ended)
  | .socket (none :: polls) => some (m, .socket polls)
  | .socket (some i :: polls) => some (m, .socketWake i polls)
  | .socketWake i polls => some (wakeup m 0 i, .socket polls)
  | .spurious i => some (condSignal m i, .ended)
  | .ended => none

def threads : Program Monitor Thread where
  starts
    | .spurious _ => true
    | _ => false
  next m t := (t.step m).map fun (m, t) => some (m, t, [])

def start (answers : List (List Bool)) (turns : List ℕ) (polls : List (Option ℕ)) :
    Threads Monitor Thread :=
  ⟨⟨answers.length, 0, false, false, []⟩,
    .timer turns :: .socket polls :: answers.mapIdx fun id answers => .worker id .test answers, false⟩

/-! ## The invariant -/

/-- The workers that are counted in `m->sleep` -/
def Thread.sleeping : Thread → ℕ
  | .worker _ .check _ | .worker _ .wait _ | .worker _ .leave _ => 1
  | _ => 0

def Thread.isWorker : Thread → ℕ
  | .worker _ _ _ => 1
  | _ => 0

/-- The threads that have the mutex -/
def Thread.holding : Thread → ℕ
  | .worker _ .enter _ | .worker _ .check _ | .worker _ .leave _ | .worker _ .unlock _ => 1
  | .timerQuit | .timerBroadcast | .timerUnlock => 1
  | _ => 0

def Thread.waits : Thread → Option ℕ
  | .worker id .wait _ => some id
  | _ => none

structure Inv (m : Monitor) (l : List Thread) : Prop where
  sleep : m.sleep = total Thread.sleeping l
  count : total Thread.isWorker l ≤ m.count
  mutex : m.locked.toNat = total Thread.holding l
  /-- Who has not been woken is in `pthread_cond_wait`. -/
  waiting : m.waiting.Subperm (l.filterMap Thread.waits)
  /-- Nobody begins to wait after `m->quit = 1`, and the broadcast wakes the others. -/
  quit : m.quit = true → m.waiting = [] ∨ .timerBroadcast ∈ l

variable {m m' : Monitor} {t t' : Thread} {l l' : List Thread} {s s' : Threads Monitor Thread}
  {as bs : List (Move Thread)} {answers : List (List Bool)} {turns : List ℕ} {polls : List (Option ℕ)}

theorem Inv.perm (hperm : l.Perm l') (h : Inv m l) : Inv m l' := by
  have hf : ∀ f : Thread → ℕ, total f l' = total f l := fun f => (total_perm hperm).symm
  constructor
  · rw [hf]
    exact h.sleep
  · rw [hf]
    exact h.count
  · rw [hf]
    exact h.mutex
  · exact h.waiting.trans (hperm.filterMap _).subperm
  · simpa only [hperm.mem_iff] using h.quit

/-- Who waits is at one place of the code. -/
theorem waits_cons (t : Thread) (l : List Thread) :
    (t :: l).filterMap Thread.waits = t.waits.toList ++ l.filterMap Thread.waits := by
  rw [List.filterMap_cons]
  cases t.waits <;> simp

theorem inv_cons : Inv m (t :: l) ↔
    m.sleep = t.sleeping + total Thread.sleeping l ∧ t.isWorker + total Thread.isWorker l ≤ m.count ∧
      m.locked.toNat = t.holding + total Thread.holding l ∧
      m.waiting.Subperm (t.waits.toList ++ l.filterMap Thread.waits) ∧
      (m.quit = true → m.waiting = [] ∨ .timerBroadcast = t ∨ .timerBroadcast ∈ l) := by
  simp only [← total_cons, ← waits_cons, ← List.mem_cons]
  exact ⟨fun h => ⟨h.sleep, h.count, h.mutex, h.waiting, h.quit⟩,
    fun ⟨hsleep, hcount, hmutex, hwaiting, hquit⟩ => ⟨hsleep, hcount, hmutex, hwaiting, hquit⟩⟩

/-- A signal only takes workers out of those that wait. -/
theorem condSignal_le (m : Monitor) (i : ℕ) :
    ∃ waiting, condSignal m i = { m with waiting := waiting } ∧ waiting.Sublist m.waiting :=
  ⟨_, rfl, List.eraseIdx_sublist _ _⟩

theorem wakeup_le (m : Monitor) (busy : ℤ) (i : ℕ) :
    ∃ waiting, wakeup m busy i = { m with waiting := waiting } ∧ waiting.Sublist m.waiting := by
  unfold wakeup
  split
  · exact condSignal_le m i
  · exact ⟨_, rfl, List.Sublist.refl _⟩

/-- A thread that is counted as before goes on, and those that wait are some of those that did. -/
theorem Inv.same {waiting : List ℕ} (h : Inv m (t :: l)) (hsub : waiting.Sublist m.waiting)
    (hsleep : t'.sleeping = t.sleeping) (hworker : t'.isWorker ≤ t.isWorker)
    (hholding : t'.holding = t.holding) (hwaits : t'.waits = t.waits) (hnot : t ≠ .timerBroadcast) :
    Inv { m with waiting := waiting } (t' :: l) := by
  obtain ⟨hs, hcount, hmutex, hwaiting, hquit⟩ := inv_cons.mp h
  rw [inv_cons]
  refine ⟨by rw [hsleep]; exact hs, by simp only; omega, by rw [hholding]; exact hmutex, ?_, ?_⟩
  · rw [hwaits]
    exact hsub.subperm.trans hwaiting
  · intro hq
    rcases hquit hq with hnil | heq | hmem
    · left
      simpa [hnil] using hsub
    · exact absurd heq.symm hnot
    · exact .inr (.inr hmem)

/-- **One step of a worker.** -/
theorem Inv.worker {id : ℕ} {phase : Phase} {answers : List Bool}
    (h : Inv m (.worker id phase answers :: l)) (hstep : phase.step m id answers = some (m', t')) :
    Inv m' (t' :: l) := by
  cases phase with
  | test =>
    cases hstep
    cases m.quit <;> exact h.same (List.Sublist.refl _) rfl (by simp [Thread.isWorker]) rfl rfl (by simp)
  | dispatch =>
    simp only [Phase.step] at hstep
    split at hstep <;> cases hstep <;>
      exact h.same (List.Sublist.refl _) rfl (le_refl _) rfl rfl (by simp)
  | lock =>
    simp only [Phase.step] at hstep
    split at hstep
    case isTrue => cases hstep
    case isFalse hfree =>
      cases hstep
      rw [inv_cons] at h ⊢
      simp_all [Thread.sleeping, Thread.isWorker, Thread.holding, Thread.waits]
  | enter =>
    cases hstep
    rw [inv_cons] at h ⊢
    simp_all [Thread.sleeping, Thread.isWorker, Thread.holding, Thread.waits, Nat.add_comm]
  | check =>
    simp only [Phase.step] at hstep
    split at hstep
    case isTrue hquit =>
      cases hstep
      rw [inv_cons] at h ⊢
      simp_all [Thread.sleeping, Thread.isWorker, Thread.holding, Thread.waits]
    case isFalse hquit =>
      cases hstep
      rw [inv_cons] at h ⊢
      obtain ⟨hsleep, hcount, hmutex, hwaiting, -⟩ := h
      have hone := m.locked.toNat_le
      simp [Thread.sleeping, Thread.isWorker, Thread.holding, Thread.waits, hquit] at *
      refine ⟨hsleep, hcount, by omega, ?_⟩
      exact (List.subperm_cons id).mpr hwaiting
  | wait =>
    simp only [Phase.step] at hstep
    split at hstep
    case isTrue => cases hstep
    case isFalse hfree =>
      cases hstep
      rw [inv_cons] at h ⊢
      obtain ⟨hsleep, hcount, hmutex, hwaiting, hquit⟩ := h
      obtain ⟨hunlocked, hwoken⟩ := not_or.mp hfree
      -- the worker has been woken, so that the others make up those that wait
      have hothers := hwaiting.erase id
      rw [List.erase_of_not_mem hwoken] at hothers
      simp_all [Thread.sleeping, Thread.isWorker, Thread.holding, Thread.waits]
  | leave =>
    cases hstep
    rw [inv_cons] at h ⊢
    simp_all [Thread.sleeping, Thread.isWorker, Thread.holding, Thread.waits]
  | unlock =>
    cases hstep
    rw [inv_cons] at h ⊢
    have hone := m.locked.toNat_le
    simp_all [Thread.sleeping, Thread.isWorker, Thread.holding, Thread.waits]

/-- **One step.** -/
theorem Inv.step (h : Inv m (t :: l)) (hstep : t.step m = some (m', t')) : Inv m' (t' :: l) := by
  cases t with
  | worker id phase answers => exact h.worker hstep
  | timer turns =>
    cases turns <;> cases hstep <;>
      exact h.same (List.Sublist.refl _) rfl (le_refl _) rfl rfl (by simp)
  | timerWake i turns =>
    cases hstep
    obtain ⟨waiting, hwake, hsub⟩ := wakeup_le m (m.count - 1) i
    rw [hwake]
    exact h.same hsub rfl (le_refl _) rfl rfl (by simp)
  | timerLock =>
    simp only [Thread.step] at hstep
    split at hstep
    case isTrue => cases hstep
    case isFalse hfree =>
      cases hstep
      rw [inv_cons] at h ⊢
      simp [Thread.sleeping, Thread.isWorker, Thread.holding, Thread.waits, hfree] at h ⊢
      exact ⟨h.1, h.2.1, h.2.2.1.symm, h.2.2.2⟩
  | timerQuit =>
    cases hstep
    rw [inv_cons] at h ⊢
    simp_all [Thread.sleeping, Thread.isWorker, Thread.holding, Thread.waits]
  | timerBroadcast =>
    cases hstep
    rw [inv_cons] at h ⊢
    simp_all [Thread.sleeping, Thread.isWorker, Thread.holding, Thread.waits]
  | timerUnlock =>
    cases hstep
    rw [inv_cons] at h ⊢
    have hone := m.locked.toNat_le
    simp_all [Thread.sleeping, Thread.isWorker, Thread.holding, Thread.waits]
  | socket polls =>
    match polls with
    | [] | none :: polls | some i :: polls =>
      cases hstep
      exact h.same (List.Sublist.refl _) rfl (le_refl _) rfl rfl (by simp)
  | socketWake i polls =>
    cases hstep
    obtain ⟨waiting, hwake, hsub⟩ := wakeup_le m 0 i
    rw [hwake]
    exact h.same hsub rfl (le_refl _) rfl rfl (by simp)
  | spurious i =>
    cases hstep
    obtain ⟨waiting, hwake, hsub⟩ := condSignal_le m i
    rw [hwake]
    exact h.same hsub rfl (le_refl _) rfl rfl (by simp)
  | ended => cases hstep

theorem Inv.starts (h : Inv m l) (hstart : threads.starts t = true) : Inv m (t :: l) := by
  cases t with
  | spurious i =>
    rw [inv_cons]
    refine ⟨?_, ?_, ?_, ?_, ?_⟩
    · simpa [Thread.sleeping] using h.sleep
    · simpa [Thread.isWorker] using h.count
    · simpa [Thread.holding] using h.mutex
    · simpa [Thread.waits] using h.waiting
    · simpa using h.quit
  | _ => cases hstart

theorem Inv.init (answers : List (List Bool)) (turns : List ℕ) (polls : List (Option ℕ)) :
    Inv (start answers turns polls).mem (start answers turns polls).threads := by
  have htest : ∀ f : Thread → ℕ, (∀ id answers, f (.worker id .test answers) = 0) →
      total f (answers.mapIdx fun id answers => .worker id .test answers) = 0 := by
    intro f hf
    apply total_eq_zero
    intro t ht
    obtain ⟨id, hid, rfl⟩ := List.mem_mapIdx.mp ht
    exact hf _ _
  have hworkers : ∀ l : List Thread, total Thread.isWorker l ≤ l.length := by
    intro l
    induction l with
    | nil => simp
    | cons t l ih =>
      have ht : t.isWorker ≤ 1 := by cases t <;> simp [Thread.isWorker]
      simp
      omega
  constructor
  · simpa [start, Thread.sleeping] using (htest Thread.sleeping fun _ _ => rfl).symm
  · simpa [start, Thread.isWorker] using hworkers (answers.mapIdx fun id answers => .worker id .test answers)
  · simpa [start, Thread.holding] using (htest Thread.holding fun _ _ => rfl).symm
  · exact List.nil_subperm
  · simp [start]

/-- **All interleavings.** -/
theorem Inv.run (hrun : run threads.step (start answers turns polls) as = some s) :
    s.fault = false ∧ Inv s.mem s.threads := by
  have hok : Guarded threads.step (Meets fun _ _ _ => True) (start answers turns polls) as :=
    guarded_of_forall fun s a => by cases a <;> simp [Meets]
  refine Program.run_safe (fun _ _ _ hperm h => h.perm hperm) (fun _ _ _ h ht => h.starts ht) ?_
    ⟨rfl, Inv.init answers turns polls⟩ hok hrun
  intro m t l r h _ hr
  obtain ⟨⟨m', t'⟩, hstep, rfl⟩ := Option.map_eq_some_iff.mp hr
  exact ⟨m', t', [], rfl, h.step hstep⟩

/-! ## Waking -/

/-- The steps that are left to a thread at most, once `m->quit` is set -/
def Thread.rank : Thread → ℕ
  | .worker _ .test _ => 1
  | .worker _ .dispatch _ => 8
  | .worker _ .lock _ => 7
  | .worker _ .enter _ => 6
  | .worker _ .check _ | .worker _ .wait _ => 5
  | .worker _ .leave _ => 4
  | .worker _ .unlock _ => 3
  | .timer turns => 2 * turns.length + 5
  | .timerWake _ turns => 2 * turns.length + 6
  | .timerLock => 4
  | .timerQuit => 3
  | .timerBroadcast => 2
  | .timerUnlock | .spurious _ => 1
  | .socket polls => 2 * polls.length + 1
  | .socketWake _ polls => 2 * polls.length + 2
  | .ended => 0

theorem Thread.step_quit (hquit : m.quit = true) (hstep : t.step m = some (m', t')) :
    m'.quit = true ∧ t'.rank < t.rank := by
  cases t with
  | worker id phase answers =>
    cases phase with
    | dispatch =>
      simp only [Thread.step, Phase.step] at hstep
      split at hstep <;> cases hstep <;> simp [hquit, Thread.rank]
    | _ => simp [Thread.step, Phase.step, hquit] at hstep; grind [Thread.rank]
  | timer turns =>
    cases turns <;> cases hstep <;> simp [hquit, Thread.rank]
    omega
  | timerWake i turns =>
    cases hstep
    obtain ⟨waiting, hwake, -⟩ := wakeup_le m (m.count - 1) i
    simp [hwake, hquit, Thread.rank]
  | socket polls =>
    match polls with
    | [] | none :: polls | some i :: polls =>
      cases hstep
      simp [hquit, Thread.rank]
      try omega
  | socketWake i polls =>
    cases hstep
    obtain ⟨waiting, hwake, -⟩ := wakeup_le m 0 i
    simp [hwake, hquit, Thread.rank]
  | timerLock =>
    simp only [Thread.step] at hstep
    split at hstep
    case isTrue => cases hstep
    case isFalse =>
      cases hstep
      simp [hquit, Thread.rank]
  | ended => cases hstep
  | timerQuit | timerBroadcast | timerUnlock | spurious i =>
    cases hstep
    simp [hquit, condSignal, Thread.rank]

/-- **A run.** Each step brings a thread closer to its end. -/
theorem run_quit (hfault : s.fault = false) (hquit : s.mem.quit = true)
    (hrun : run threads.step s bs = some s') :
    s'.mem.quit = true ∧
      bs.length + total Thread.rank s'.threads ≤
        total Thread.rank s.threads + 2 * bs.countP Move.isStart := by
  induction bs generalizing s with
  | nil =>
    cases hrun
    exact ⟨hquit, by simp⟩
  | cons a bs ih =>
    obtain ⟨u, hu, hrun⟩ := run_cons_eq_some.mp hrun
    cases a with
    | start t =>
      have hstart := hu
      simp only [Program.step, hfault, Bool.false_eq_true, if_false] at hstart
      split at hstart
      case isFalse => cases hstart
      case isTrue hs =>
        cases hstart
        have hrank : t.rank = 1 := by
          cases t with
          | spurious i => rfl
          | _ => cases hs
        obtain ⟨hquit', hle⟩ := ih (by rfl) (by exact hquit) hrun
        refine ⟨hquit', ?_⟩
        rw [List.countP_cons_of_pos (by rfl)]
        simp [hrank] at hle ⊢
        omega
    | go i =>
      have hgo := hu
      simp only [Program.step, hfault, Bool.false_eq_true, if_false] at hgo
      obtain ⟨t, ht, hadv⟩ := Option.bind_eq_some_iff.mp hgo
      obtain ⟨r, hr, -⟩ := Option.map_eq_some_iff.mp hadv
      obtain ⟨⟨m', t'⟩, hmove, rfl⟩ := Option.map_eq_some_iff.mp hr
      obtain ⟨hstep, htotal⟩ := Program.step_go Thread.rank hfault ht hr
      rw [hstep, Option.some.injEq] at hu
      subst hu
      obtain ⟨hquit', hlt⟩ := Thread.step_quit hquit hmove
      obtain ⟨hquit'', hle⟩ := ih rfl hquit' hrun
      refine ⟨hquit'', ?_⟩
      rw [List.countP_cons_of_neg (by simp [Move.isStart])]
      simp at hle htotal ⊢
      omega

/-- When `m->quit` is set, a thread that cannot move waits for one that can. -/
theorem Inv.stuck (h : Inv m l) (hquit : m.quit = true) (hnone : ∀ t ∈ l, t.step m = none) :
    ∀ t ∈ l, t = .ended := by
  -- who has the mutex can move, so that nobody has it
  have hfree : m.locked = false := by
    by_contra hlocked
    have hpos : total Thread.holding l ≠ 0 := by
      rw [← h.mutex]
      simp [hlocked]
    apply hpos
    apply total_eq_zero
    intro t ht
    have := hnone t ht
    cases t with
    | worker id phase answers =>
      cases phase <;> first | rfl | (simp [Thread.step, Phase.step, hquit] at this)
    | _ => first | rfl | (simp [Thread.step] at this)
  have hwoken : m.waiting = [] := by
    rcases h.quit hquit with hnil | hmem
    · exact hnil
    · cases hnone _ hmem
  intro t ht
  have := hnone t ht
  cases t with
  | ended => rfl
  | worker id phase answers =>
    exfalso
    cases phase with
    | dispatch =>
      simp only [Thread.step, Phase.step] at this
      split at this <;> cases this
    | _ => simp [Thread.step, Phase.step, hquit, hfree, hwoken] at this
  | timer turns => cases turns <;> cases this
  | socket polls =>
    match polls with
    | [] | none :: polls | some i :: polls => cases this
  | _ => simp [Thread.step, hfree] at this

/-- **The node ends.** From `m->quit = 1` on, the threads take finitely many steps, and when none of them
can go on, every thread has returned: no worker has been left waiting. -/
theorem threads_end (hrun : run threads.step (start answers turns polls) as = some s)
    (hquit : s.mem.quit = true) (hrun' : run threads.step s bs = some s') :
    bs.length ≤ total Thread.rank s.threads + 2 * bs.countP Move.isStart ∧
      ((∀ i, threads.step s' (.go i) = none) → ∀ t ∈ s'.threads, t = .ended) := by
  obtain ⟨hfault, -⟩ := Inv.run hrun
  obtain ⟨hquit', hle⟩ := run_quit hfault hquit hrun'
  have hboth : run threads.step (start answers turns polls) (as ++ bs) = some s' := by
    rw [run_append_of_eq_some hrun, hrun']
  obtain ⟨hfault', hinv⟩ := Inv.run hboth
  refine ⟨by omega, fun hstuck => hinv.stuck hquit' ?_⟩
  intro t ht
  obtain ⟨i, hlt, rfl⟩ := List.mem_iff_getElem.mp ht
  by_contra hne
  obtain ⟨⟨m', t'⟩, hstep⟩ := Option.ne_none_iff_exists'.mp hne
  have hnext : threads.next s'.mem s'.threads[i] = some (some (m', t', [])) := by
    simp [threads, hstep]
  have hi : s'.threads[i]? = some s'.threads[i] := List.getElem?_eq_getElem hlt
  have hgo := hstuck i
  rw [(Program.step_go Thread.rank hfault' hi hnext).1] at hgo
  cases hgo

/-- A worker that waits when the timer quits -/
theorem threads_end_broadcast :
    run threads.step
        ⟨⟨1, 1, true, true, [0]⟩, [.timerBroadcast, .socket [], .worker 0 .wait []], false⟩
        [.go 0, .go 0, .go 1, .go 2, .go 2, .go 2, .go 2] =
      some ⟨⟨1, 0, true, false, []⟩, [.ended, .ended, .ended], false⟩ ∧
    ∀ t ∈ ([.ended, .ended, .ended] : List Thread), t = .ended := by
  have hrun : run threads.step (start [[]] [] [])
      [.go 2, .go 2, .go 2, .go 2, .go 2, .go 0, .go 0, .go 0] =
        some ⟨⟨1, 1, true, true, [0]⟩, [.timerBroadcast, .socket [], .worker 0 .wait []], false⟩ := by
    decide
  have hrun' : run threads.step
      ⟨⟨1, 1, true, true, [0]⟩, [.timerBroadcast, .socket [], .worker 0 .wait []], false⟩
      [.go 0, .go 0, .go 1, .go 2, .go 2, .go 2, .go 2] =
        some ⟨⟨1, 0, true, false, []⟩, [.ended, .ended, .ended], false⟩ := by decide
  refine ⟨hrun', (threads_end hrun rfl hrun').2 ?_⟩
  intro i
  match i with
  | 0 | 1 | 2 | _ + 3 => rfl

end SkynetEureka.Scheduler.Start
