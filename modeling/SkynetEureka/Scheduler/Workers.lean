import SkynetEureka.Scheduler.Steps

/-!
# The steps of a worker

A worker takes a queue from the global list, handles some of its messages, and puts it back or keeps it;
the queue of a service that is retired is dropped.
-/

namespace SkynetEureka.Scheduler

open Lib Server

variable {m : Memory} {l : List ℕ} {t : Thread} {rest : List Thread} {c q handle i n : ℕ}
  {s : Service} {mq : MessageQueue} {weight : ℤ} {message : Message}

/-! ## Workers -/

/-- The queue of a service with the same counts of what the threads have, and another record -/
theorem Service.Ok.setQueue {registered listed listed' : ℕ} {n n' : Res → ℕ} {log : Log}
    {mq' : MessageQueue} (h : s.Ok registered listed n) (hsame : ∀ r, r ≠ .queue → n' r = n r)
    (hqueue : mq'.Ok s.handle log registered listed' n') :
    ({ s with queue := some mq', log := log } : Service).Ok registered listed' n' := by
  have href := hsame .ref (by decide)
  have hdelete := hsame .delete (by decide)
  have hfree := hsame .free (by decide)
  have hsettle := hsame .settle (by decide)
  have hlaunch := hsame .launch (by decide)
  refine ⟨h.handle, ?_, ?_, ?_, ?_, ?_, ?_, ?_⟩
  · rw [href]
    exact h.reference
  · rw [href, hdelete, hfree]
    exact h.alive
  · rw [href, hdelete, hfree]
    exact h.dead
  · rw [href, hsettle]
    exact h.settle
  · rw [hlaunch]
    exact h.init
  · intro hnone
    cases hnone
  · intro q hq
    cases hq
    exact hqueue

/-- A queue gets its place in the global list, or loses it. -/
theorem Inv.move {t' : Thread} {m' : Memory} {l' : List ℕ} (h : Inv m l (t :: rest))
    (hs : m.services[q]? = some s) (hq : s.queue = some mq) (hfreed : mq.freed = 0)
    (hservices : m'.services = m.services.set q s) (htable : m'.table = m.table)
    (hholds : m'.global.Holds l') (hfifo : m'.enqueued = m'.dequeued ++ l')
    (hlist : ∀ x ≠ q, l'.count x = l.count x)
    (hhas : ∀ r x, r ≠ .queue ∨ x ≠ q → t'.has r x = t.has r x)
    (hplace : t'.has .queue q + l'.count q = t.has .queue q + l.count q)
    (hthread : m.Le m' → t'.Ok m') : Inv m' l' (t' :: rest) := by
  refine h.put hs hservices htable hholds hfifo hlist (fun r x hx => hhas r x (.inr hx)) (.refl s) id ?_
    hthread
  intro hold
  have hmq := hold.born mq hq
  have hsame : ∀ r, r ≠ .queue → t'.has r q = t.has r q := fun r hr => hhas r q (.inl hr)
  have hold' : ({ s with queue := some mq, log := s.log } : Service).Ok (m.registered q s) (l'.count q)
      (fun r => t'.has r q + count rest r q) := by
    apply hold.setQueue
    · intro r hr
      rw [hsame r hr]
    · refine ⟨hmq.handle, ?_, ?_, ?_, ?_, hmq.keeps⟩
      · rw [hsame .create (by decide)]
        exact hmq.create
      · rw [hsame .ref (by decide), hsame .delete (by decide)]
        exact hmq.release
      · intro hzero
        rw [← hmq.place hzero]
        omega
      · intro hne
        exact absurd hfreed hne
  rw [show s = { s with queue := some mq, log := s.log } by rw [← hq]]
  exact hold'

/-- A worker takes the queue at the head of the global list, or goes on to wait. -/
theorem goes_worker_none (h : Inv m l (.worker weight none :: rest)) :
    ∃ r, Thread.next m (.worker weight none) = some r ∧ Goes r rest := by
  rcases h.globalPop with ⟨-, hpop⟩ | ⟨q, l', rfl, m', hpop, hservices, htable, hholds, hfifo⟩
  · have hnext : Thread.next m (.worker weight none) = some (some (m, .worker weight none, [])) := by
      simp [Thread.next, hpop]
    exact ⟨_, hnext, m, _, [], rfl, l, h⟩
  · have hnext : Thread.next m (.worker weight none) =
        some (some (m', .worker weight (some q), [])) := by
      simp [Thread.next, hpop]
    obtain ⟨s, mq, hs, hq, hfreed⟩ := h.listed (q := q) List.mem_cons_self
    refine ⟨_, hnext, m', _, [], rfl, l', ?_⟩
    refine h.move hs hq hfreed (hservices.trans (set_eq_self hs).symm) htable hholds hfifo ?_ ?_ ?_
      fun _ => trivial
    · intro x hx
      simp [hx.symm]
    · intro r x hrx
      cases r <;> first | rfl | exact one_of_ne (hrx.resolve_left (by simp))
    · simp [Thread.has]
      omega

/-- A worker that has a queue finds its context, which is launched, or finds that it is retired. -/
theorem goes_worker_some (h : Inv m l (.worker weight (some q) :: rest)) :
    ∃ r, Thread.next m (.worker weight (some q)) = some r ∧ Goes r rest := by
  obtain ⟨s, hs, hok⟩ := h.get (c := q) (r := .queue) (by simp [Thread.has])
  have hone : (Thread.worker weight (some q)).has .queue q = 1 := one_self q
  obtain ⟨mq, hq, hmq⟩ := hok.exists_queue (by omega)
  have hfreed := hmq.live (by omega)
  have hnext : Thread.next m (.worker weight (some q)) =
      some (Thread.grab m mq.handle (.pop weight q · 0 1) (.releaseQueue q (some weight))) := by
    simp [Thread.next, Memory.queue_eq hs hq hfreed]
  refine ⟨_, hnext, ?_⟩
  apply goes_grab h
  · intro c _ r x
    cases r <;> simp [Thread.has]
  · intro r x
    cases r <;> simp [Thread.has]
  · intro c s' m' _ hs' hhandle hok' hle
    have hlives : s.Lives := by
      intro mq' hq'
      rw [hq] at hq'
      cases hq'
      exact hfreed
    have hlives' : s'.Lives := by
      intro mq' hq'
      exact (hok'.born mq' hq').live (by omega)
    have hqc : q = c := h.unique q c s s' hs hs' hlives hlives' (hmq.handle.symm.trans hhandle.symm)
    subst hqc
    rw [hs] at hs'
    cases hs'
    -- the worker has the queue, so that no launch has it
    have hlaunch := count_launch_le rest q
    have hplace := hmq.place hfreed
    have hcreate := hmq.create
    rcases hok'.init (by omega) with hinit | hpos
    · exact ⟨rfl, hle.init ⟨s, hs, hinit⟩⟩
    · simp only [Thread.has, Nat.zero_add] at hpos hcreate
      split at hplace <;> omega
  · trivial

/-- `skynet_mq_pop`: the first message is to be handled, or the queue has no place any more. -/
theorem goes_pop (h : Inv m l (.pop weight q c i n :: rest)) :
    ∃ r, Thread.next m (.pop weight q c i n) = some r ∧ Goes r rest := by
  obtain ⟨rfl, s, hs, hinit⟩ := h.thread _ List.mem_cons_self
  have hok := h.service q s hs
  simp only [count_cons] at hok
  have hone : (Thread.pop weight q q i n).has .queue q = 1 := one_self q
  have href : (Thread.pop weight q q i n).has .ref q = 1 := one_self q
  obtain ⟨mq, hq, hmq⟩ := hok.exists_queue (by omega)
  have hfreed := hmq.live (by omega)
  have hplace := hmq.place hfreed
  have hrelease : mq.release = false := by
    by_contra hmark
    have := hmq.release.mp (by simpa using hmark)
    omega
  obtain ⟨messages, hkeeps⟩ := hmq.keeps
  have hdropped : s.log.dropped = [] := by
    by_contra hne
    rw [hkeeps.dropped hne] at hrelease
    cases hrelease
  cases messages with
  | nil =>
    set mq' := { mq with overloadThreshold := mqOverload, inGlobal := false } with hmq'
    have hnext : Thread.next m (.pop weight q q i n) =
        some (some (m.put q { s with queue := some mq' }, .release q (.next weight), [])) := by
      simp [Thread.next, Memory.queue_eq hs hq hfreed, skynetMqPop_nil hkeeps.ring, hmq']
    refine ⟨_, hnext, _, _, [], rfl, l, ?_⟩
    refine h.put hs rfl rfl h.holds h.fifo (fun _ _ => rfl) ?_ ?_ ?_ ?_ fun _ => trivial
    · intro r x hx
      cases r <;> first | rfl | exact (one_of_ne hx).symm
    · refine ⟨rfl, id, fun q' hq' => ?_⟩
      rw [hq] at hq'
      cases hq'
      exact ⟨_, rfl, id, id⟩
    · intro _ q' hq'
      rw [hq] at hq'
      cases hq'
      exact hfreed
    · intro hold
      apply hold.setQueue
      · intro r hr
        cases r <;> first | rfl | contradiction
      · refine ⟨hmq.handle, hmq.create, hmq.release, ?_, fun hne => absurd hfreed hne, [],
          hkeeps.ring, hkeeps.pushed, fun _ _ => rfl, hkeeps.dropped, fun _ => rfl⟩
        intro _
        simp only [hmq', hrelease, Bool.false_eq_true, or_self, if_false]
        simp only [Thread.has, After.queue, one_self] at hplace ⊢
        split at hplace <;> omega
  | cons message messages =>
    obtain ⟨mq', hpop, hring, hhandle, hrelease', hglobal, hfreed'⟩ := skynetMqPop_cons hkeeps.ring
    set log : Log := { s.log with dispatched := s.log.dispatched ++ [message] } with hlog
    have hnext : Thread.next m (.pop weight q q i n) =
        some (some (m.put q { s with queue := some mq', log := log },
          if i = 0 ∧ 0 ≤ weight then .length weight q q else .dispatch weight q q i n, [])) := by
      simp [Thread.next, Memory.queue_eq hs hq hfreed, hpop, hlog]
    have hhas : ∀ r x, (if i = 0 ∧ 0 ≤ weight then Thread.length weight q q
        else .dispatch weight q q i n).has r x = (Thread.pop weight q q i n).has r x := by
      intro r x
      split <;> cases r <;> rfl
    refine ⟨_, hnext, _, _, [], rfl, l, ?_⟩
    refine h.put hs rfl rfl h.holds h.fifo (fun _ _ => rfl) (fun r x _ => hhas r x) ?_ ?_ ?_ ?_
    · refine ⟨rfl, id, fun q' hq' => ?_⟩
      rw [hq] at hq'
      cases hq'
      refine ⟨_, rfl, fun hmark => ?_, fun hd => ?_⟩
      · rw [hrelease', hmark]
      · rw [hd.1] at hrelease
        cases hrelease
    · intro _ q' hq'
      rw [hq] at hq'
      cases hq'
      exact hfreed
    · intro hold
      apply hold.setQueue
      · intro r _
        rw [hhas]
      · simp only [hhas]
        refine ⟨hhandle.trans hmq.handle, hmq.create, ?_, ?_, ?_, messages, hring, ?_, ?_, ?_, ?_⟩
        · rw [hrelease']
          exact hmq.release
        · rw [hrelease', hglobal, hfreed']
          exact hmq.place
        · rw [hrelease', hfreed']
          exact hmq.freed
        · rw [hlog]
          simp only
          rw [hkeeps.pushed, hdropped]
          simp
        · intro hnot hnot'
          rw [hglobal] at hnot
          have := hkeeps.waits hnot hrelease
          cases this
        · intro hne
          exact absurd hdropped hne
        · intro hne
          rw [hfreed'] at hne
          exact absurd hfreed hne
    · intro hle
      have hknown := hle.init ⟨s, hs, hinit⟩
      split <;> exact ⟨rfl, hknown⟩

/-- `skynet_mq_length` -/
theorem goes_length (h : Inv m l (.length weight q c :: rest)) :
    ∃ r, Thread.next m (.length weight q c) = some r ∧ Goes r rest := by
  have hknown := h.thread _ List.mem_cons_self
  obtain ⟨s, hs, hok⟩ := h.get (c := q) (r := .queue) (by simp [Thread.has])
  have hone : (Thread.length weight q c).has .queue q = 1 := one_self q
  obtain ⟨mq, hq, hmq⟩ := hok.exists_queue (by omega)
  have hfreed := hmq.live (by omega)
  have hnext : Thread.next m (.length weight q c) =
      some (some (m, .dispatch weight q c 0 (Thread.rounds weight (skynetMqLength mq)), [])) := by
    simp [Thread.next, Memory.queue_eq hs hq hfreed]
  refine ⟨_, hnext, m, _, [], rfl, l, ?_⟩
  refine h.same ?_ hknown
  intro r x
  cases r <;> rfl

/-- `dispatch_message`: the context is launched. -/
theorem goes_dispatch (h : Inv m l (.dispatch weight q c i n :: rest)) :
    ∃ r, Thread.next m (.dispatch weight q c i n) = some r ∧ Goes r rest := by
  obtain ⟨rfl, s, hs, hinit⟩ := h.thread _ List.mem_cons_self
  have hok := h.service q s hs
  simp only [count_cons] at hok
  have hone : (Thread.dispatch weight q q i n).has .queue q = 1 := one_self q
  have href : (Thread.dispatch weight q q i n).has .ref q = 1 := one_self q
  have hcontext := hok.context hs (by omega)
  obtain ⟨mq, hq, hmq⟩ := hok.exists_queue (by omega)
  have hfreed := hmq.live (by omega)
  have hnext : Thread.next m (.dispatch weight q q i n) =
      some (some (m.put q { s with queue := some { mq with overload := 0 } },
        if i + 1 < n then .pop weight q q (i + 1) n else .rotate weight q q, [])) := by
    simp [Thread.next, hcontext, Memory.queue_eq hs hq hfreed, hinit, skynetMqOverload]
  have hhas : ∀ r x, (if i + 1 < n then Thread.pop weight q q (i + 1) n
      else .rotate weight q q).has r x = (Thread.dispatch weight q q i n).has r x := by
    intro r x
    split <;> cases r <;> rfl
  refine ⟨_, hnext, _, _, [], rfl, l, ?_⟩
  refine h.put hs rfl rfl h.holds h.fifo (fun _ _ => rfl) (fun r x _ => hhas r x) ?_ ?_ ?_ ?_
  · refine ⟨rfl, id, fun q' hq' => ?_⟩
    rw [hq] at hq'
    cases hq'
    exact ⟨_, rfl, id, id⟩
  · intro _ q' hq'
    rw [hq] at hq'
    cases hq'
    exact hfreed
  · intro hold
    obtain ⟨messages, hkeeps⟩ := hmq.keeps
    apply hold.setQueue
    · intro r _
      rw [hhas]
    · simp only [hhas]
      exact ⟨hmq.handle, hmq.create, hmq.release, hmq.place, hmq.freed, messages, hkeeps.ring,
        hkeeps.pushed, hkeeps.waits, hkeeps.dropped, hkeeps.freed⟩
  · intro hle
    have hknown := hle.init ⟨s, hs, hinit⟩
    split
    · exact ⟨rfl, hknown⟩
    · exact rfl

/-- Behind the loop a worker keeps its queue, unless another one waits in the global list. -/
theorem goes_rotate (h : Inv m l (.rotate weight q c :: rest)) :
    ∃ r, Thread.next m (.rotate weight q c) = some r ∧ Goes r rest := by
  obtain rfl : q = c := h.thread _ List.mem_cons_self
  obtain ⟨s, hs, hok⟩ := h.get (c := q) (r := .ref) (by simp [Thread.has])
  have hcontext := hok.context hs (by simp only [Thread.has, one_self]; omega)
  rcases h.globalPop with ⟨-, hpop⟩ | ⟨next, l', rfl, m', hpop, hservices, htable, hholds, hfifo⟩
  · have hnext : Thread.next m (.rotate weight q q) =
        some (some (m, .release q (.keep weight q), [])) := by
      simp [Thread.next, hcontext, hpop]
    refine ⟨_, hnext, m, _, [], rfl, l, h.same ?_ trivial⟩
    intro r x
    cases r <;> rfl
  · have hnext : Thread.next m (.rotate weight q q) =
        some (some (m', .pushBack weight q q next, [])) := by
      simp [Thread.next, hcontext, hpop]
    obtain ⟨s', mq, hs', hq, hfreed⟩ := h.listed (q := next) List.mem_cons_self
    refine ⟨_, hnext, m', _, [], rfl, l', ?_⟩
    refine h.move hs' hq hfreed (hservices.trans (set_eq_self hs').symm) htable hholds hfifo ?_ ?_ ?_
      fun _ => trivial
    · intro x hx
      simp [hx.symm]
    · intro r x hrx
      cases r <;> first | rfl | simp [Thread.has, one_of_ne (hrx.resolve_left (by simp))]
    · simp [Thread.has]
      omega

/-- The queue goes to the end of the global list, and the worker goes on with the next one. -/
theorem goes_pushBack {next : ℕ} (h : Inv m l (.pushBack weight q c next :: rest)) :
    ∃ r, Thread.next m (.pushBack weight q c next) = some r ∧ Goes r rest := by
  obtain ⟨s, hs, hok⟩ := h.get (c := q) (r := .queue) (by simp [Thread.has])
  have hone : (Thread.pushBack weight q c next).has .queue q = 1 + one next q := by simp [Thread.has]
  obtain ⟨mq, hq, hmq⟩ := hok.exists_queue (by omega)
  have hfreed := hmq.live (by omega)
  have hplace := hmq.place hfreed
  have hlisted : l.count q = 0 := by
    split at hplace <;> omega
  obtain ⟨m', hpush, hservices, htable, hholds, hfifo⟩ := h.globalPush hs hq hfreed hlisted
  have hnext : Thread.next m (.pushBack weight q c next) =
      some (some (m', .release c (.keep weight next), [])) := by
    simp [Thread.next, hpush]
  refine ⟨_, hnext, m', _, [], rfl, pushed l q true, ?_⟩
  refine h.move hs hq hfreed hservices htable hholds hfifo (fun x hx => pushed_count_of_ne hx) ?_ ?_
    fun _ => trivial
  · intro r x hrx
    cases r <;> first | rfl | simp [Thread.has, After.queue, one_of_ne (hrx.resolve_left (by simp))]
  · simp [Thread.has, After.queue]
    omega

/-! ## Dropping a queue -/

theorem afterQueue_has {weight : Option ℤ} (r : Res) (x : ℕ) : (afterQueue weight).has r x = 0 := by
  cases weight <;> cases r <;> rfl

theorem afterQueue_ok {weight : Option ℤ} : (afterQueue weight).Ok m := by
  cases weight <;> trivial

/-- `skynet_mq_release`: a queue that is marked is to be dropped, another one is listed again. -/
theorem goes_releaseQueue {weight : Option ℤ} (h : Inv m l (.releaseQueue q weight :: rest)) :
    ∃ r, Thread.next m (.releaseQueue q weight) = some r ∧ Goes r rest := by
  obtain ⟨s, hs, hok⟩ := h.get (c := q) (r := .queue) (by simp [Thread.has])
  have hone : (Thread.releaseQueue q weight).has .queue q = 1 := one_self q
  obtain ⟨mq, hq, hmq⟩ := hok.exists_queue (by omega)
  have hfreed := hmq.live (by omega)
  have hplace := hmq.place hfreed
  have hlisted : l.count q = 0 := by
    split at hplace <;> omega
  cases hrelease : mq.release with
  | true =>
    have hnext : Thread.next m (.releaseQueue q weight) = some (some (m, .drop q weight, [])) := by
      simp [Thread.next, Memory.queue_eq hs hq hfreed, hrelease]
    refine ⟨_, hnext, m, _, [], rfl, l, h.same ?_ ⟨s, mq, hs, hq, hrelease⟩⟩
    intro r x
    cases r <;> rfl
  | false =>
    obtain ⟨m', hpush, hservices, htable, hholds, hfifo⟩ := h.globalPush hs hq hfreed hlisted
    have hnext : Thread.next m (.releaseQueue q weight) =
        some (some (m', afterQueue weight, [])) := by
      simp [Thread.next, Memory.queue_eq hs hq hfreed, hrelease, hpush]
    refine ⟨_, hnext, m', _, [], rfl, pushed l q true, ?_⟩
    refine h.move hs hq hfreed hservices htable hholds hfifo (fun x hx => pushed_count_of_ne hx) ?_ ?_
      fun _ => afterQueue_ok
    · intro r x hrx
      rw [afterQueue_has]
      cases r <;> first | rfl | exact (one_of_ne (hrx.resolve_left (by simp))).symm
    · rw [afterQueue_has, pushed_count_self]
      simp [Thread.has]
      omega

theorem report_has (harbor handle : ℕ) (message : Message) (r : Res) (x : ℕ) :
    count (report harbor handle message) r x = 0 := by
  unfold report
  simp only
  split
  · rfl
  · cases r <;> rfl

theorem report_ok {harbor handle : ℕ} {u : Thread} (hu : u ∈ report harbor handle message) :
    u.Ok m := by
  unfold report at hu
  simp only at hu
  split at hu
  · cases hu
  · rw [List.mem_singleton.mp hu]
    trivial

/-- `_drop_queue`: a message is dropped and reported, or there is none left. -/
theorem goes_drop {weight : Option ℤ} (h : Inv m l (.drop q weight :: rest)) :
    ∃ r, Thread.next m (.drop q weight) = some r ∧ Goes r rest := by
  obtain ⟨s, mq, hs, hq, hrelease⟩ := h.thread _ List.mem_cons_self
  have hok := h.service q s hs
  simp only [count_cons] at hok
  have hone : (Thread.drop q weight).has .queue q = 1 := one_self q
  have hmq := hok.born mq hq
  have hfreed := hmq.live (by omega)
  obtain ⟨messages, hkeeps⟩ := hmq.keeps
  cases messages with
  | nil =>
    set mq' := { mq with overloadThreshold := mqOverload, inGlobal := false } with hmq'
    have hnext : Thread.next m (.drop q weight) =
        some (some (m.put q { s with queue := some mq' }, .freeQueue q weight, [])) := by
      simp [Thread.next, Memory.queue_eq hs hq hfreed, skynetMqPop_nil hkeeps.ring, hmq']
    refine ⟨_, hnext, _, _, [], rfl, l, ?_⟩
    refine h.put hs rfl rfl h.holds h.fifo (fun _ _ => rfl) ?_ ?_ ?_ ?_ ?_
    · intro r x _
      cases r <;> rfl
    · refine ⟨rfl, id, fun q' hq' => ?_⟩
      rw [hq] at hq'
      cases hq'
      exact ⟨_, rfl, id, id⟩
    · intro _ q' hq'
      rw [hq] at hq'
      cases hq'
      exact hfreed
    · intro hold
      apply hold.setQueue
      · intro r _
        cases r <;> rfl
      · refine ⟨hmq.handle, hmq.create, hmq.release, ?_, hmq.freed, [], hkeeps.ring, hkeeps.pushed,
          fun _ _ => rfl, hkeeps.dropped, fun _ => rfl⟩
        have hplace := hmq.place
        simp only [hrelease, or_true, if_true] at hplace
        simp only [hmq', hrelease, or_true, if_true]
        exact hplace
    · intro _
      exact ⟨_, mq', Memory.put_self hs, rfl, hrelease, hkeeps.ring⟩
  | cons message messages =>
    obtain ⟨mq', hpop, hring, hhandle, hrelease', hglobal, hfreed'⟩ := skynetMqPop_cons hkeeps.ring
    have hne : mq'.handle ≠ 0 := by
      rw [hhandle, hmq.handle]
      exact hok.handle
    set log : Log := { s.log with dropped := s.log.dropped ++ [message] } with hlog
    have hnext : Thread.next m (.drop q weight) =
        some (some (m.put q { s with queue := some mq', log := log }, .drop q weight,
          report m.harbor mq'.handle message)) := by
      simp [Thread.next, Memory.queue_eq hs hq hfreed, hpop, hne, hlog]
    refine ⟨_, hnext, _, _, _, rfl, l, ?_⟩
    refine h.change _ q h.holds h.fifo List.length_set (fun x hx => Memory.put_of_ne hx)
      (fun _ _ hx => hx) (fun _ _ _ hx => hx) (fun _ _ => rfl) ?_ ?_ ?_ ?_
    · intro r x _
      rw [report_has, Nat.add_zero]
    · intro hge
      obtain ⟨hlt, -⟩ := List.getElem?_eq_some_iff.mp hs
      omega
    · intro a b ha hb hold
      rw [hs] at ha
      rw [Memory.put_self hs] at hb
      cases ha
      cases hb
      refine ⟨⟨rfl, id, fun q' hq' => ?_⟩, ?_, ?_⟩
      · rw [hq] at hq'
        cases hq'
        refine ⟨_, rfl, fun _ => hrelease'.trans hrelease, fun hd => ?_⟩
        -- a queue without messages is not popped here
        have := hd.2.length_eq
        rw [hkeeps.ring.length_eq] at this
        cases this
      · intro _ q' hq'
        rw [hq] at hq'
        cases hq'
        exact hfreed
      · apply hold.setQueue
        · intro r _
          rw [report_has, Nat.zero_add]
        · simp only [report_has, Nat.zero_add]
          refine ⟨hhandle.trans hmq.handle, hmq.create, ?_, ?_, ?_, messages, hring, ?_, ?_, ?_, ?_⟩
          · rw [hrelease']
            exact hmq.release
          · rw [hrelease', hglobal, hfreed']
            exact hmq.place
          · rw [hrelease', hfreed']
            exact hmq.freed
          · rw [hlog]
            simp only
            rw [hkeeps.pushed]
            simp
          · intro _ hmark
            rw [hrelease', hrelease] at hmark
            cases hmark
          · intro _
            rw [hrelease', hrelease]
          · intro hne'
            rw [hfreed'] at hne'
            exact absurd hfreed hne'
    · intro hle
      refine ⟨Thread.Ok.mono hle (t := .drop q weight) ⟨s, mq, hs, hq, hrelease⟩, ?_⟩
      intro u hu
      exact report_ok hu

/-- `_release`: the queue is freed, and nobody has it. -/
theorem goes_freeQueue {weight : Option ℤ} (h : Inv m l (.freeQueue q weight :: rest)) :
    ∃ r, Thread.next m (.freeQueue q weight) = some r ∧ Goes r rest := by
  obtain ⟨s, mq, hs, hq, hrelease, hring⟩ := h.thread _ List.mem_cons_self
  have hok := h.service q s hs
  simp only [count_cons] at hok
  have hone : (Thread.freeQueue q weight).has .queue q = 1 := one_self q
  have hmq := hok.born mq hq
  have hfreed := hmq.live (by omega)
  have hplace := hmq.place hfreed
  simp only [hrelease, or_true, if_true] at hplace
  have hlink : m.global.next q = none := by
    apply h.holds.next
    apply List.count_eq_zero.mp
    omega
  obtain ⟨messages, hkeeps⟩ := hmq.keeps
  have hempty : messages = [] := by
    apply List.length_eq_zero_iff.mp
    rw [← hkeeps.ring.length_eq, hring.length_eq]
    rfl
  set mq' := { mq with freed := mq.freed + 1 } with hmq'
  have hnext : Thread.next m (.freeQueue q weight) =
      some (some (m.put q { s with queue := some mq' }, afterQueue weight, [])) := by
    simp [Thread.next, Memory.queue_eq hs hq hfreed, hlink, hmq']
  refine ⟨_, hnext, _, _, [], rfl, l, ?_⟩
  refine h.put hs rfl rfl h.holds h.fifo (fun _ _ => rfl) ?_ ?_ ?_ ?_ fun _ => afterQueue_ok
  · intro r x hx
    rw [afterQueue_has]
    cases r <;> first | rfl | exact (one_of_ne hx).symm
  · refine ⟨rfl, id, fun q' hq' => ?_⟩
    rw [hq] at hq'
    cases hq'
    exact ⟨_, rfl, id, id⟩
  · intro hlives
    have := hlives mq' rfl
    cases this
  · intro hold
    apply hold.setQueue
    · intro r hr
      rw [afterQueue_has]
      cases r <;> first | rfl | contradiction
    · simp only [afterQueue_has, Nat.zero_add]
      refine ⟨hmq.handle, ?_, ?_, ?_, ?_, messages, hkeeps.ring, hkeeps.pushed, hkeeps.waits,
        hkeeps.dropped, fun _ => hempty⟩
      · simpa [Thread.has] using hmq.create
      · simpa [Thread.has] using hmq.release
      · intro hzero
        cases hzero
      · intro _
        refine ⟨?_, hrelease, ?_⟩
        · rw [hmq', hfreed]
        · omega

end SkynetEureka.Scheduler
