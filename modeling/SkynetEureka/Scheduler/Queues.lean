import SkynetEureka.Scheduler.Workers

/-!
# The queues of a node

The invariant holds in every state of every interleaving, and from it: a queue has one place, its
messages are handled or dropped once and in order, and what is retired is freed once.

Three things are left to the callers (`Careful`). A handle is not given out again while the queue of the
service that had it before is still looked after. Nothing is sent to a handle before its queue is created.
And nobody gives back the last reference of a context while its launch stands between its own release and
`ctx->init = true`; there the source writes to a context that it has released.
-/

namespace SkynetEureka.Scheduler

open Lib Server

/-- What the callers see to -/
def Careful (m : Memory) (t : Thread) (others : List Thread) : Prop :=
  match t with
  | .register handle _ _ => ∀ s ∈ m.services, s.handle = handle → s.queue.any (·.freed ≠ 0) = true
  | .send handle _ =>
    ((m.table handle).bind (m.services[·]?)).all (·.queue.isSome) = true
  | .release c _ => (m.services[c]?).all (·.ref ≠ 1) = true ∨ count others .settle c = 0
  | _ => True

instance (m : Memory) (t : Thread) (others : List Thread) : Decidable (Careful m t others) := by
  unfold Careful
  split <;> infer_instance

/-- A node without services -/
def boot (harbor : ℕ) : Threads Memory Thread := ⟨Memory.init harbor, [], false⟩

variable {m : Memory} {l : List ℕ} {t : Thread} {rest : List Thread} {harbor : ℕ}
  {as : List (Move Thread)} {s : Threads Memory Thread} {c : ℕ} {service : Service} {mq : MessageQueue}

/-- A thread that starts has nothing. -/
theorem Inv.start (h : Inv m l rest) (hstart : node.starts t = true) : Inv m l (t :: rest) := by
  have hhas : ∀ r x, t.has r x = 0 := by
    intro r x
    cases t with
    | retire handle failed =>
      cases failed with
      | none => cases r <;> rfl
      | some c => cases hstart
    | worker weight q =>
      cases q with
      | none => cases r <;> rfl
      | some q => cases hstart
    | register | send | visit => cases r <;> rfl
    | _ => cases hstart
  have hok : t.Ok m := by
    cases t with
    | retire handle failed =>
      cases failed with
      | none => trivial
      | some c => cases hstart
    | worker weight q => trivial
    | register | send | visit => trivial
    | _ => cases hstart
  refine ⟨h.holds, h.fifo, ?_, ?_, h.table, h.unique, ?_⟩
  · intro c s hs
    simpa only [count_cons, hhas, Nat.zero_add] using h.service c s hs
  · intro c hc
    simpa only [count_cons, hhas, Nat.zero_add] using h.bound c hc
  · intro u hu
    rcases List.mem_cons.mp hu with rfl | hu
    · exact hok
    · exact h.thread u hu

/-- **One step.** What the next step of the first thread does keeps the invariant. -/
theorem Inv.next {r : Option (Memory × Thread × List Thread)} (h : Inv m l (t :: rest))
    (hcareful : Careful m t rest) (hr : Thread.next m t = some r) : Goes r rest := by
  have hgoes : ∀ {t : Thread}, (∃ r, Thread.next m t = some r ∧ Goes r rest) →
      Thread.next m t = some r → Goes r rest := by
    rintro t ⟨r', hr', hgoes⟩ hr
    rw [hr] at hr'
    cases hr'
    exact hgoes
  cases t with
  | register handle cb ok =>
    refine goes_register h (fun s hs hhandle hlives => ?_) hr
    have hany := hcareful s hs hhandle
    cases hq : s.queue with
    | none => simp [hq] at hany
    | some mq => simp [hq, hlives mq hq] at hany
  | create c ok => exact hgoes (goes_create h) hr
  | settle c => exact hgoes (goes_settle h) hr
  | publish c => exact hgoes (goes_publish h) hr
  | send handle message =>
    rw [Thread.next] at hr
    cases hr
    apply goes_send h
    intro c s htable hs
    simpa [Careful, htable, hs] using hcareful
  | push c message => exact hgoes (goes_push h) hr
  | visit handle =>
    rw [Thread.next] at hr
    cases hr
    exact goes_visit h
  | retire handle failed => exact hgoes (goes_retire h) hr
  | release c k =>
    refine hgoes (goes_release h fun s hs hone => ?_) hr
    rcases hcareful with hnot | hzero
    · rw [hs] at hnot
      simp [hone] at hnot
    · exact hzero
  | delete c k => exact hgoes (goes_delete h) hr
  | free c k => exact hgoes (goes_free h) hr
  | worker weight q =>
    cases q with
    | none => exact hgoes (goes_worker_none h) hr
    | some q => exact hgoes (goes_worker_some h) hr
  | pop weight q c i n => exact hgoes (goes_pop h) hr
  | length weight q c => exact hgoes (goes_length h) hr
  | dispatch weight q c i n => exact hgoes (goes_dispatch h) hr
  | rotate weight q c => exact hgoes (goes_rotate h) hr
  | pushBack weight q c next => exact hgoes (goes_pushBack h) hr
  | releaseQueue q weight => exact hgoes (goes_releaseQueue h) hr
  | drop q weight => exact hgoes (goes_drop h) hr
  | freeQueue q weight => exact hgoes (goes_freeQueue h) hr
  | ended => cases hr

/-- **All interleavings.** -/
theorem Inv.run (hcareful : Guarded node.step (Meets Careful) (boot harbor) as)
    (hrun : run node.step (boot harbor) as = some s) :
    s.fault = false ∧ ∃ l, Inv s.mem l s.threads := by
  refine Program.run_safe (I := fun m threads => ∃ l, Inv m l threads) ?_ ?_ ?_
    ⟨rfl, [], Inv.init harbor⟩ hcareful hrun
  · intro m threads threads' hperm hinv
    obtain ⟨l, hinv⟩ := hinv
    exact ⟨l, hinv.perm hperm⟩
  · intro m t threads hinv hstart
    obtain ⟨l, hinv⟩ := hinv
    exact ⟨l, hinv.start hstart⟩
  · intro m t threads r hinv hok hr
    obtain ⟨l, hinv⟩ := hinv
    obtain ⟨m', t', started, heq, hinv'⟩ := hinv.next hok hr
    exact ⟨m', t', started, heq, hinv'⟩

/-! ## Two runs -/

/-- The message that is sent in the run below -/
def hello : Message := ⟨0x1000001, 1, .payload none, 0⟩

/-- A service is launched and gets a message that a worker handles; it is sent another one, retired while
the worker keeps its queue, and the queue is dropped. -/
def life : List (Move Thread) :=
  [.start (.register 0x1000001 true true), .go 0, .go 0, .go 0, .go 0, .go 0,
    .start (.worker 0 none), .start (.send 0x1000001 hello), .go 2, .go 2, .go 2,
    .go 1, .go 1, .go 1, .go 1, .go 1, .go 1, .go 1,
    .start (.send 0x1000001 hello), .go 3, .go 3, .go 3, .start (.retire 0x1000001 none), .go 4, .go 4,
    .go 4, .go 4, .go 1, .go 1, .go 1, .go 1, .go 1]

theorem life_careful : Guarded node.step (Meets Careful) (boot 0x1000000) life := by decide +kernel

theorem life_runs : ∃ s, run node.step (boot 0x1000000) life = some s ∧
    s.mem.services.map (fun x => (x.freed, x.queue.map (·.freed), x.log.dispatched.length,
      x.log.dropped.length)) = [(1, some 1, 1, 1)] := by
  have hsome : ((run node.step (boot 0x1000000) life).map fun s =>
      s.mem.services.map fun x => (x.freed, x.queue.map (·.freed), x.log.dispatched.length,
        x.log.dropped.length)) = some [(1, some 1, 1, 1)] := by decide +kernel
  exact Option.map_eq_some_iff.mp hsome

/-- A service that is retired by another thread while `skynet_context_new` stands between its own release
and `ctx->init = true` is freed, and then written to. -/
theorem init_stored_late :
    (run node.step (boot 0x1000000)
      [.start (.register 0x1000001 true true), .go 0, .go 0, .go 0, .start (.retire 0x1000001 none),
        .go 1, .go 1, .go 1, .go 1, .go 0]).map (·.fault) = some true := by decide +kernel

/-! ## Places -/

/-- **One place for a queue.** No step of any interleaving fails an assertion or touches what is freed;
the global list has each queue once at most, and none that a thread has; two threads do not have the same
queue; and a queue with messages is listed, or some thread has it. A queue is freed once at most, when it
is in no place. -/
theorem queues_have_one_place (hcareful : Guarded node.step (Meets Careful) (boot harbor) as)
    (hrun : run node.step (boot harbor) as = some s) :
    s.fault = false ∧ ∃ l, s.mem.global.Holds l ∧
      ∀ (c : ℕ) (service : Service) (mq : MessageQueue), s.mem.services[c]? = some service →
        service.queue = some mq →
        l.count c + count s.threads .queue c ≤ 1 ∧ mq.freed ≤ 1 ∧
          (mq.freed = 1 → l.count c + count s.threads .queue c = 0) ∧
          (mq.freed = 0 → skynetMqLength mq ≠ 0 → l.count c + count s.threads .queue c = 1) := by
  obtain ⟨hfault, l, hinv⟩ := Inv.run hcareful hrun
  refine ⟨hfault, l, hinv.holds, ?_⟩
  intro c service mq hs hq
  have hmq := (hinv.service c service hs).born mq hq
  obtain ⟨messages, hkeeps⟩ := hmq.keeps
  by_cases hfreed : mq.freed = 0
  · have hplace := hmq.place hfreed
    have hle : l.count c + count s.threads .queue c ≤ 1 := by
      split at hplace <;> omega
    refine ⟨hle, by omega, by omega, ?_⟩
    intro _ hlength
    -- a queue that is neither listed nor marked has no messages
    by_cases hlisted : mq.inGlobal = true ∨ mq.release = true
    · rw [if_pos hlisted] at hplace
      omega
    · simp only [not_or, Bool.not_eq_true] at hlisted
      have hempty := hkeeps.waits hlisted.1 hlisted.2
      rw [skynetMqLength, hkeeps.ring.length_eq, hempty] at hlength
      exact absurd rfl hlength
  · obtain ⟨hone, -, hplace⟩ := hmq.freed hfreed
    omega

theorem queues_have_one_place_life : ∃ s, run node.step (boot 0x1000000) life = some s ∧
    s.fault = false := by
  obtain ⟨s, hs, -⟩ := life_runs
  exact ⟨s, hs, (queues_have_one_place life_careful hs).1⟩

/-- **Each message once, in order.** What has been pushed to a queue is what was handled, what was dropped
and what is still in it, in this order. Messages are dropped only when the context is deleted, and a queue
that is freed has none left. The queues of the global list come out in the order in which they were
pushed. -/
theorem messages_once_in_order (hcareful : Guarded node.step (Meets Careful) (boot harbor) as)
    (hrun : run node.step (boot harbor) as = some s) :
    (∃ l, s.mem.global.Holds l ∧ s.mem.enqueued = s.mem.dequeued ++ l) ∧
      ∀ (c : ℕ) (service : Service) (mq : MessageQueue), s.mem.services[c]? = some service →
        service.queue = some mq →
        ∃ messages, mq.ring.Holds messages ∧
          service.log.pushed = service.log.dispatched ++ service.log.dropped ++ messages ∧
          (service.log.dropped ≠ [] → s.mem.registered c service = 0 ∧ count s.threads .ref c = 0) ∧
          (mq.freed ≠ 0 → messages = []) := by
  obtain ⟨-, l, hinv⟩ := Inv.run hcareful hrun
  refine ⟨⟨l, hinv.holds, hinv.fifo⟩, ?_⟩
  intro c service mq hs hq
  have hmq := (hinv.service c service hs).born mq hq
  obtain ⟨messages, hkeeps⟩ := hmq.keeps
  refine ⟨messages, hkeeps.ring, hkeeps.pushed, ?_, hkeeps.freed⟩
  intro hdropped
  have := hmq.release.mp (hkeeps.dropped hdropped)
  omega

theorem messages_once_in_order_life : ∃ s, run node.step (boot 0x1000000) life = some s ∧
    ∃ l, s.mem.global.Holds l ∧ s.mem.enqueued = s.mem.dequeued ++ l := by
  obtain ⟨s, hs, -⟩ := life_runs
  exact ⟨s, hs, (messages_once_in_order life_careful hs).1⟩

/-- **Retired services.** The count of a context is that of its references, and the context is freed once
at most, when there is none. A context without references that no thread is about to delete or free is
freed; then its queue is marked, and freed as well or in its place to be dropped. -/
theorem contexts_freed_when_unused (hcareful : Guarded node.step (Meets Careful) (boot harbor) as)
    (hrun : run node.step (boot harbor) as = some s) (hs : s.mem.services[c]? = some service) :
    service.ref = (s.mem.registered c service + count s.threads .ref c : ℕ) ∧ service.freed ≤ 1 ∧
      (service.freed = 1 → service.ref = 0) ∧
      (service.ref = 0 → count s.threads .delete c + count s.threads .free c = 0 →
        service.freed = 1 ∧ ∃ mq, service.queue = some mq ∧ mq.release = true ∧
          ∃ l, s.mem.global.Holds l ∧ mq.freed + (l.count c + count s.threads .queue c) = 1) := by
  obtain ⟨-, l, hinv⟩ := Inv.run hcareful hrun
  have hok := hinv.service c service hs
  have href := hok.reference
  refine ⟨href, ?_, ?_, ?_⟩
  · by_cases hzero : s.mem.registered c service + count s.threads .ref c = 0
    · have := hok.dead hzero
      omega
    · have := hok.alive (by omega)
      omega
  · intro hfreed
    by_contra hne
    have := hok.alive (by omega)
    omega
  · intro hzero hnobody
    have hdead := hok.dead (by omega)
    have hcreate := count_create_le s.threads c
    obtain ⟨mq, hq, hmq⟩ := hok.exists_queue (.inr (by omega))
    have hrelease : mq.release = true := hmq.release.mpr ⟨by omega, by omega⟩
    refine ⟨by omega, mq, hq, hrelease, l, hinv.holds, ?_⟩
    by_cases hfreed : mq.freed = 0
    · have hplace := hmq.place hfreed
      rw [if_pos (.inr hrelease)] at hplace
      omega
    · obtain ⟨hone, -, hplace⟩ := hmq.freed hfreed
      omega

theorem contexts_freed_when_unused_life : ∃ s service,
    run node.step (boot 0x1000000) life = some s ∧ s.mem.services[0]? = some service ∧
      service.freed = 1 ∧ service.ref = 0 := by
  obtain ⟨s, hs, hmap⟩ := life_runs
  obtain ⟨service, hservices⟩ : ∃ service, s.mem.services = [service] := by
    apply List.length_eq_one_iff.mp
    have := congrArg List.length hmap
    simpa using this
  have hget : s.mem.services[0]? = some service := by rw [hservices]; rfl
  have hfreed : service.freed = 1 := by
    rw [hservices] at hmap
    simp at hmap
    exact hmap.1
  obtain ⟨-, -, hzero, -⟩ := contexts_freed_when_unused life_careful hs hget
  exact ⟨s, service, hs, hget, hfreed, hzero hfreed⟩

end SkynetEureka.Scheduler
