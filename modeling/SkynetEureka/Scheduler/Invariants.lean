import SkynetEureka.Scheduler.Dispatch

/-!
# What the threads have

`Thread.has` is how often a thread has a thing: a reference of a context, the duty to delete or to free
it, the queue of a service, its launch, or one of two places in it. `Service.Ok` relates a service to how
often all threads have each of them, and `Inv` is the invariant of all interleavings.
-/

namespace SkynetEureka.Scheduler

open Lib Server

/-- What a thread can have of a service -/
inductive Res where
  /-- a reference of the context -/
  | ref
  /-- the duty to mark the queue -/
  | delete
  /-- the duty to free the context -/
  | free
  /-- the queue, which is then not in the global list -/
  | queue
  /-- the launch, up to `ctx->init = true` or to `skynet_handle_retire` -/
  | launch
  /-- the place in front of `ctx->init = true` -/
  | settle
  /-- the place in front of `skynet_mq_create` -/
  | create
  deriving DecidableEq

/-- 1 at `a`, and 0 elsewhere -/
def one (a x : ℕ) : ℕ := if x = a then 1 else 0

@[simp] theorem one_self (a : ℕ) : one a a = 1 := if_pos rfl

theorem one_of_ne {a x : ℕ} (h : x ≠ a) : one a x = 0 := if_neg h

/-- The queue of a thread that is in a release of the context `c` -/
def After.queue (c : ℕ) : After → ℕ → ℕ
  | .launched | .failed _ => one c
  | .unregistered c' | .keep _ c' => one c'
  | .done | .next _ => fun _ => 0

def After.launch (c : ℕ) : After → ℕ → ℕ
  | .launched | .failed _ => one c
  | _ => fun _ => 0

def Thread.has : Thread → Res → ℕ → ℕ
  | .create c _, .ref | .create c _, .launch | .create c _, .create => one c
  | .settle c, .queue | .settle c, .launch | .settle c, .settle => one c
  | .publish c, .queue => one c
  | .push c _, .ref => one c
  | .retire _ (some c), .queue | .retire _ (some c), .launch => one c
  | .release c _, .ref => one c
  | .release c k, .queue | .delete c k, .queue | .free c k, .queue => k.queue c
  | .release c k, .launch | .delete c k, .launch | .free c k, .launch => k.launch c
  | .delete c _, .delete => one c
  | .free c _, .free => one c
  | .worker _ (some q), .queue => one q
  | .pop _ _ c _ _, .ref | .length _ _ c, .ref | .dispatch _ _ c _ _, .ref => one c
  | .pop _ q _ _ _, .queue | .length _ q _, .queue | .dispatch _ q _ _ _, .queue => one q
  | .rotate _ _ c, .ref | .pushBack _ _ c _, .ref => one c
  | .rotate _ q _, .queue => one q
  | .pushBack _ q _ next, .queue => fun x => one q x + one next x
  | .releaseQueue q _, .queue | .drop q _, .queue | .freeQueue q _, .queue => one q
  | _, _ => fun _ => 0

/-- Behind a release a thread has what it had, but the reference. -/
theorem kept_has {c : ℕ} {k : After} {r : Res} (href : r ≠ .ref) (hsettle : r ≠ .settle) (x : ℕ) :
    (k.kept c).has r x = (Thread.release c k).has r x := by
  cases k <;> cases r <;> first | rfl | contradiction

theorem kept_ref {c : ℕ} {k : After} (x : ℕ) : (k.kept c).has .ref x = 0 := by
  cases k <;> rfl

/-- If the context is deleted, a launch ends with it. -/
theorem gone_has {c : ℕ} {k : After} {r : Res} (hfree : r ≠ .free) (hlaunch : r ≠ .launch) (x : ℕ) :
    (k.gone c).has r x = (Thread.free c k).has r x := by
  cases k <;> cases r <;> first | rfl | contradiction

theorem gone_free {c : ℕ} {k : After} (x : ℕ) : (k.gone c).has .free x = 0 := by
  cases k <;> rfl

/-- How often the threads have a thing -/
def count (threads : List Thread) (r : Res) (c : ℕ) : ℕ := total (fun t => t.has r c) threads

section Count

variable {t : Thread} {threads l : List Thread} {r : Res} {c : ℕ}

@[simp] theorem count_nil : count [] r c = 0 := rfl

@[simp] theorem count_cons : count (t :: threads) r c = t.has r c + count threads r c := total_cons

@[simp] theorem count_append : count (threads ++ l) r c = count threads r c + count l r c :=
  total_append

theorem count_perm (h : threads.Perm l) : count threads r c = count l r c := total_perm h

/-- Who is in front of `skynet_mq_create` has a reference. -/
theorem create_le_ref (t : Thread) (c : ℕ) : t.has .create c ≤ t.has .ref c := by
  cases t <;> simp [Thread.has]

/-- Who has the launch of a service has its queue, or is in front of `skynet_mq_create`. -/
theorem launch_le (t : Thread) (c : ℕ) : t.has .launch c ≤ t.has .queue c + t.has .create c := by
  cases t with
  | release _ k | delete _ k | free _ k => cases k <;> simp [Thread.has, After.launch, After.queue]
  | retire _ failed => cases failed <;> simp [Thread.has]
  | _ => simp [Thread.has]

theorem count_create_le (threads : List Thread) (c : ℕ) :
    count threads .create c ≤ count threads .ref c :=
  total_mono fun t _ => create_le_ref t c

theorem count_launch_le (threads : List Thread) (c : ℕ) :
    count threads .launch c ≤ count threads .queue c + count threads .create c := by
  induction threads with
  | nil => exact le_rfl
  | cons t l ih =>
    have := launch_le t c
    simp only [count_cons]
    omega

end Count

/-! ## One service -/

/-- The messages of a queue: what was pushed is handled, dropped, or still there, in this order. -/
structure MessageQueue.Keeps (q : MessageQueue) (log : Log) (l : List Message) : Prop where
  ring : q.ring.Holds l
  pushed : log.pushed = log.dispatched ++ log.dropped ++ l
  waits : q.inGlobal = false → q.release = false → l = []
  dropped : log.dropped ≠ [] → q.release = true
  freed : q.freed ≠ 0 → l = []

/-- The queue of a service of which the threads have `n`; `registered` is 1 if the service has its handle,
and `listed` how often the queue is in the global list. -/
structure MessageQueue.Ok (q : MessageQueue) (handle : ℕ) (log : Log) (registered listed : ℕ)
    (n : Res → ℕ) : Prop where
  handle : q.handle = handle
  create : n .create = 0
  /-- The queue is marked when the context is deleted. -/
  release : q.release = true ↔ registered + n .ref = 0 ∧ n .delete = 0
  /-- The queue has one place, as long as it is to be looked after. -/
  place : q.freed = 0 →
    n .queue + listed = if q.inGlobal = true ∨ q.release = true then 1 else 0
  freed : q.freed ≠ 0 → q.freed = 1 ∧ q.release = true ∧ n .queue + listed = 0
  keeps : ∃ l, q.Keeps log l

/-- What counts of the threads for a queue -/
theorem MessageQueue.Ok.congr {q : MessageQueue} {handle registered listed : ℕ} {log : Log}
    {n n' : Res → ℕ} (h : q.Ok handle log registered listed n) (href : n' .ref = n .ref)
    (hdelete : n' .delete = n .delete) (hqueue : n' .queue = n .queue)
    (hcreate : n' .create = n .create) : q.Ok handle log registered listed n' := by
  refine ⟨h.handle, hcreate.trans h.create, ?_, ?_, ?_, h.keeps⟩
  · rw [href, hdelete]
    exact h.release
  · rw [hqueue]
    exact h.place
  · rw [hqueue]
    exact h.freed

structure Service.Ok (s : Service) (registered listed : ℕ) (n : Res → ℕ) : Prop where
  handle : s.handle ≠ 0
  reference : s.ref = (registered + n .ref : ℕ)
  alive : 0 < registered + n .ref → s.freed = 0 ∧ n .delete = 0 ∧ n .free = 0
  dead : registered + n .ref = 0 → n .delete + n .free + s.freed = 1
  settle : 0 < n .settle → 0 < registered + n .ref
  init : 0 < registered → s.init = true ∨ 0 < n .launch
  unborn : s.queue = none → n .create = 1 ∧ n .queue + listed = 0 ∧ s.log = ⟨[], [], []⟩
  born : ∀ q, s.queue = some q → q.Ok s.handle s.log registered listed n

/-! ## What stays true of a service -/

/-- Marked, and without messages -/
def MessageQueue.Drained (q : MessageQueue) : Prop := q.release = true ∧ q.ring.Holds []

/-- No step takes back what another thread relies on. -/
structure Service.Le (s s' : Service) : Prop where
  handle : s'.handle = s.handle
  init : s.init = true → s'.init = true
  queue : ∀ q, s.queue = some q → ∃ q', s'.queue = some q' ∧ (q.release = true → q'.release = true) ∧
    (q.Drained → q'.Drained)

theorem Service.Le.refl (s : Service) : s.Le s :=
  ⟨rfl, id, fun q hq => ⟨q, hq, id, id⟩⟩

def Memory.Le (m m' : Memory) : Prop :=
  ∀ (c : ℕ) (s : Service), m.services[c]? = some s → ∃ s', m'.services[c]? = some s' ∧ s.Le s'

/-- What a thread knows behind a failed launch: the handle of the context -/
def After.Ok (m : Memory) (c : ℕ) : After → Prop
  | .failed handle => ∃ s, m.services[c]? = some s ∧ s.handle = handle
  | _ => True

/-- What a thread knows -/
def Thread.Ok (m : Memory) : Thread → Prop
  | .push c _ => ∃ s q, m.services[c]? = some s ∧ s.queue = some q
  | .retire handle (some c) => ∃ s, m.services[c]? = some s ∧ s.handle = handle
  | .release c k | .delete c k | .free c k => k.Ok m c
  | .pop _ q c _ _ | .length _ q c | .dispatch _ q c _ _ =>
    q = c ∧ ∃ s, m.services[c]? = some s ∧ s.init = true
  | .rotate _ q c => q = c
  | .drop q _ => ∃ s mq, m.services[q]? = some s ∧ s.queue = some mq ∧ mq.release = true
  | .freeQueue q _ => ∃ s mq, m.services[q]? = some s ∧ s.queue = some mq ∧ mq.Drained
  | _ => True

section Mono

variable {m m' : Memory} {c q : ℕ}

theorem After.Ok.mono {k : After} (hle : m.Le m') (h : k.Ok m c) : k.Ok m' c := by
  cases k with
  | failed handle =>
    obtain ⟨s, hs, hhandle⟩ := h
    obtain ⟨s', hs', hle'⟩ := hle c s hs
    exact ⟨s', hs', hle'.handle.trans hhandle⟩
  | _ => trivial

theorem Memory.Le.init (hle : m.Le m') (h : ∃ s, m.services[c]? = some s ∧ s.init = true) :
    ∃ s, m'.services[c]? = some s ∧ s.init = true := by
  obtain ⟨s, hs, hinit⟩ := h
  obtain ⟨s', hs', hle'⟩ := hle c s hs
  exact ⟨s', hs', hle'.init hinit⟩

/-- What a thread knows stays true. -/
theorem Thread.Ok.mono {t : Thread} (hle : m.Le m') (h : t.Ok m) : t.Ok m' := by
  cases t with
  | push c message =>
    obtain ⟨s, q, hs, hq⟩ := h
    obtain ⟨s', hs', hle'⟩ := hle c s hs
    obtain ⟨q', hq', -⟩ := hle'.queue q hq
    exact ⟨s', q', hs', hq'⟩
  | retire handle failed =>
    cases failed with
    | some c =>
      obtain ⟨s, hs, hhandle⟩ := h
      obtain ⟨s', hs', hle'⟩ := hle c s hs
      exact ⟨s', hs', hle'.handle.trans hhandle⟩
    | none => trivial
  | release c k | delete c k | free c k => exact After.Ok.mono hle h
  | pop w q c i n | length w q c | dispatch w q c i n => exact ⟨h.1, hle.init h.2⟩
  | rotate w q c => exact h
  | drop q k =>
    obtain ⟨s, mq, hs, hq, hrelease⟩ := h
    obtain ⟨s', hs', hle'⟩ := hle q s hs
    obtain ⟨q', hq', hrelease', -⟩ := hle'.queue mq hq
    exact ⟨s', q', hs', hq', hrelease' hrelease⟩
  | freeQueue q k =>
    obtain ⟨s, mq, hs, hq, hdrained⟩ := h
    obtain ⟨s', hs', hle'⟩ := hle q s hs
    obtain ⟨q', hq', -, hdrained'⟩ := hle'.queue mq hq
    exact ⟨s', q', hs', hq', hdrained' hdrained⟩
  | _ => trivial

end Mono

/-! ## The invariant -/

/-- 1 if the service still has its handle -/
def Memory.registered (m : Memory) (c : ℕ) (s : Service) : ℕ :=
  if m.table s.handle = some c then 1 else 0

/-- The queue of the service is not freed yet. -/
def Service.Lives (s : Service) : Prop := ∀ q, s.queue = some q → q.freed = 0

/-- The invariant, when `l` is the global list -/
structure Inv (m : Memory) (l : List ℕ) (threads : List Thread) : Prop where
  holds : m.global.Holds l
  fifo : m.enqueued = m.dequeued ++ l
  service : ∀ (c : ℕ) (s : Service), m.services[c]? = some s →
    s.Ok (m.registered c s) (l.count c) fun r => count threads r c
  bound : ∀ c : ℕ, c ≥ m.services.length → l.count c = 0 ∧ ∀ r, count threads r c = 0
  table : ∀ h c : ℕ, m.table h = some c → ∃ s, m.services[c]? = some s ∧ s.handle = h
  unique : ∀ (c c' : ℕ) (s s' : Service), m.services[c]? = some s → m.services[c']? = some s' →
    s.Lives → s'.Lives → s.handle = s'.handle → c = c'
  thread : ∀ t ∈ threads, t.Ok m

theorem Inv.perm {m : Memory} {l : List ℕ} {threads threads' : List Thread} (h : Inv m l threads)
    (hperm : threads.Perm threads') : Inv m l threads' where
  holds := h.holds
  fifo := h.fifo
  service c s hs := by simpa only [count_perm hperm] using h.service c s hs
  bound c hc := by simpa only [count_perm hperm] using h.bound c hc
  table := h.table
  unique := h.unique
  thread t ht := h.thread t (hperm.mem_iff.mpr ht)

theorem Inv.init (harbor : ℕ) : Inv (Memory.init harbor) [] [] where
  holds := .init
  fifo := rfl
  service c s hs := by cases hs
  bound c _ := ⟨rfl, fun _ => rfl⟩
  table h c hc := by cases hc
  unique c c' s s' hs := by cases hs
  thread t ht := by cases ht

end SkynetEureka.Scheduler
