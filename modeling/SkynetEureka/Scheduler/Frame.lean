import SkynetEureka.Scheduler.Invariants

/-!
# The frame of a step

A step touches one service. `Inv.change` asks what is new of it and of the thread that moves, and gives
the invariant of the whole; the lemmas before it say what such a thread finds in the memory.
-/

namespace SkynetEureka.Scheduler

open Lib Server

variable {m m' : Memory} {l l' : List ℕ} {t t' : Thread} {rest started : List Thread} {c q : ℕ}
  {s s' : Service} {mq : MessageQueue}

/-! ## What a thread finds -/

/-- A context that somebody has, or is to delete or to free -/
theorem Service.Ok.context {registered listed : ℕ} {n : Res → ℕ} (h : s.Ok registered listed n)
    (hs : m.services[c]? = some s)
    (hpos : 0 < registered + n .ref + n .delete + n .free) : m.context c = some s := by
  have hfreed : s.freed = 0 := by
    by_cases href : 0 < registered + n .ref
    · exact (h.alive href).1
    · have := h.dead (by omega)
      omega
  unfold Memory.context
  rw [hs]
  exact if_pos hfreed

/-- A queue that somebody has, that is in the global list, or whose context is not deleted -/
theorem MessageQueue.Ok.live {handle registered listed : ℕ} {log : Log} {n : Res → ℕ} (h : mq.Ok handle log registered
    listed n) (hpos : 0 < registered + n .ref + n .delete + n .queue + listed) : mq.freed = 0 := by
  by_contra hfreed
  obtain ⟨-, hrelease, hplace⟩ := h.freed hfreed
  have := h.release.mp hrelease
  omega

theorem Memory.queue_eq (hs : m.services[c]? = some s) (hq : s.queue = some mq)
    (hfreed : mq.freed = 0) : m.queue c = some (s, mq) := by
  unfold Memory.queue
  rw [hs]
  show (do let mq ← s.queue; if mq.freed = 0 then some (s, mq) else none) = _
  rw [hq]
  exact if_pos hfreed

/-- A service of which the first thread has something -/
theorem Inv.get (h : Inv m l (t :: rest)) {r : Res} (hpos : 0 < t.has r c) :
    ∃ s, m.services[c]? = some s ∧
      s.Ok (m.registered c s) (l.count c) fun r => t.has r c + count rest r c := by
  have hlt : c < m.services.length := by
    by_contra hge
    have := (h.bound c (by omega)).2 r
    rw [count_cons] at this
    omega
  have hs := List.getElem?_eq_getElem hlt
  have hok := h.service c _ hs
  simp only [count_cons] at hok
  exact ⟨_, hs, hok⟩

/-- A service that has its queue -/
theorem Service.Ok.exists_queue {registered listed : ℕ} {n : Res → ℕ} (h : s.Ok registered listed n)
    (hpos : 0 < n .queue + listed ∨ n .create = 0) :
    ∃ mq, s.queue = some mq ∧ mq.Ok s.handle s.log registered listed n := by
  cases hq : s.queue with
  | none =>
    obtain ⟨hcreate, hplace, -⟩ := h.unborn hq
    omega
  | some mq => exact ⟨mq, rfl, h.born mq hq⟩

/-- The queues of the global list are not freed. -/
theorem Inv.listed {threads : List Thread} (h : Inv m l threads) (hq : q ∈ l) :
    ∃ s mq, m.services[q]? = some s ∧ s.queue = some mq ∧ mq.freed = 0 := by
  have hcount : 0 < l.count q := List.count_pos_iff.mpr hq
  have hlt : q < m.services.length := by
    by_contra hge
    have := (h.bound q (by omega)).1
    omega
  have hs := List.getElem?_eq_getElem hlt
  have hok := h.service q _ hs
  obtain ⟨mq, hmq, hmqok⟩ := hok.exists_queue (by omega)
  exact ⟨_, mq, hs, hmq, hmqok.live (by omega)⟩

/-! ## One service changes -/

theorem Memory.put_self (h : m.services[c]? = some s) : (m.put c s').services[c]? = some s' := by
  obtain ⟨hlt, -⟩ := List.getElem?_eq_some_iff.mp h
  exact List.getElem?_set_self hlt

theorem Memory.put_of_ne {x : ℕ} (h : x ≠ c) : (m.put c s').services[x]? = m.services[x]? :=
  List.getElem?_set_ne h.symm

@[simp] theorem Memory.setHandle_self {handle : ℕ} {o : Option ℕ} :
    (m.setHandle handle o).table handle = o := by
  simp [Memory.setHandle]

theorem Memory.setHandle_of_ne {handle handle' : ℕ} {o : Option ℕ} (h : handle' ≠ handle) :
    (m.setHandle handle o).table handle' = m.table handle' := by
  simp [Memory.setHandle, h]

theorem set_eq_self {services : List Service} (h : services[c]? = some s) :
    services.set c s = services := by
  obtain ⟨hlt, rfl⟩ := List.getElem?_eq_some_iff.mp h
  exact List.set_getElem_self hlt

theorem Memory.put_eq_self (h : m.services[c]? = some s) : m.put c s = m := by
  unfold Memory.put
  rw [set_eq_self h]

/-- The global list, if the queue is pushed to its end -/
def pushed (l : List ℕ) (q : ℕ) (listed : Bool) : List ℕ := if listed then l ++ [q] else l

@[simp] theorem pushed_count_self {listed : Bool} :
    (pushed l c listed).count c = l.count c + listed.toNat := by
  cases listed <;> simp [pushed]

theorem pushed_count_of_ne {x : ℕ} {listed : Bool} (h : x ≠ c) :
    (pushed l c listed).count x = l.count x := by
  cases listed <;> simp [pushed, h.symm]

/-- The queue of the service that has changed may be pushed to the global list in the same step. -/
theorem Inv.list {threads : List Thread} (h : Inv m l threads) (s' : Service)
    (hs : m.services[c]? = some s) (hq : s'.queue = some mq) (hfreed : mq.freed = 0) (listed : Bool)
    (hlisted : listed = true → l.count c = 0) :
    ∃ m', (m.put c s').list c listed = some m' ∧ m'.services = m.services.set c s' ∧
      m'.table = m.table ∧ m'.global.Holds (pushed l c listed) ∧
      m'.enqueued = m'.dequeued ++ pushed l c listed := by
  cases listed with
  | false => exact ⟨_, rfl, rfl, rfl, h.holds, h.fifo⟩
  | true =>
    have hqueue := Memory.queue_eq (Memory.put_self hs) hq hfreed
    -- the queue at the tail is in the list
    have htail : ∃ x, (m.put c s').queue ((m.put c s').global.tail.getD c) = some x := by
      show ∃ x, (m.put c s').queue (m.global.tail.getD c) = some x
      rw [h.holds.tail]
      cases hlast : l.getLast? with
      | none => exact ⟨_, hqueue⟩
      | some t =>
        by_cases htc : t = c
        · subst htc
          exact ⟨_, hqueue⟩
        · obtain ⟨s₁, mq₁, hs₁, hq₁, hfreed₁⟩ := h.listed (List.mem_of_getLast? hlast)
          have hother : (m.put c s').services[t]? = m.services[t]? := Memory.put_of_ne htc
          rw [← hother] at hs₁
          exact ⟨_, Memory.queue_eq hs₁ hq₁ hfreed₁⟩
    obtain ⟨x, htail⟩ := htail
    obtain ⟨g, hpush, hholds⟩ := h.holds.push (List.count_eq_zero.mp (hlisted rfl))
    refine ⟨{ m.put c s' with global := g, enqueued := m.enqueued ++ [c] }, ?_, rfl, rfl, hholds, ?_⟩
    · unfold Memory.list Memory.globalPush
      rw [if_pos rfl, hqueue, htail]
      show (do let global ← skynetGlobalmqPush m.global c; _) = _
      rw [hpush]
      rfl
    · show m.enqueued ++ [c] = m.dequeued ++ (l ++ [c])
      rw [h.fifo, List.append_assoc]

/-- `skynet_globalmq_push` alone -/
theorem Inv.globalPush {threads : List Thread} (h : Inv m l threads) (hs : m.services[c]? = some s)
    (hq : s.queue = some mq) (hfreed : mq.freed = 0) (hlisted : l.count c = 0) :
    ∃ m', m.globalPush c = some m' ∧ m'.services = m.services.set c s ∧
      m'.table = m.table ∧ m'.global.Holds (pushed l c true) ∧
      m'.enqueued = m'.dequeued ++ pushed l c true := by
  have hpush := h.list s hs hq hfreed true fun _ => hlisted
  rw [Memory.put_eq_self hs] at hpush
  exact hpush

/-- `skynet_globalmq_pop`: the list is empty, or its head comes out. -/
theorem Inv.globalPop {threads : List Thread} (h : Inv m l threads) :
    l = [] ∧ m.globalPop = some (m, none) ∨
      ∃ q l', l = q :: l' ∧ ∃ m', m.globalPop = some (m', some q) ∧ m'.services = m.services ∧
        m'.table = m.table ∧ m'.global.Holds l' ∧
        m'.enqueued = m'.dequeued ++ l' := by
  unfold Memory.globalPop
  cases l with
  | nil =>
    rw [h.holds.pop_nil]
    exact .inl ⟨rfl, rfl⟩
  | cons q l =>
    obtain ⟨g, hpop, hholds⟩ := h.holds.pop_cons
    obtain ⟨s, mq, hs, hq, hfreed⟩ := h.listed List.mem_cons_self
    right
    refine ⟨q, l, rfl, { m with global := g, dequeued := m.dequeued ++ [q] }, ?_, rfl, rfl, hholds, ?_⟩
    · rw [hpop]
      show (do let _ ← m.queue q; _) = _
      rw [Memory.queue_eq hs hq hfreed]
      rfl
    · show m.enqueued = m.dequeued ++ [q] ++ l
      rw [h.fifo, List.append_assoc]
      rfl

/-- **The frame.** A step of the first thread touches one service, `c`, at most; for the others the
threads have what they had. -/
theorem Inv.change (h : Inv m l (t :: rest)) (started : List Thread) (c : ℕ) (hholds : m'.global.Holds l')
    (hfifo : m'.enqueued = m'.dequeued ++ l') (hlength : m'.services.length = m.services.length)
    (hother : ∀ x ≠ c, m'.services[x]? = m.services[x]?)
    (htable : ∀ handle x, m'.table handle = some x → m.table handle = some x)
    (hkept : ∀ handle, ∀ x ≠ c, m.table handle = some x → m'.table handle = some x)
    (hlist : ∀ x ≠ c, l'.count x = l.count x)
    (hcount : ∀ r, ∀ x ≠ c, t'.has r x + count started r x = t.has r x)
    (hcl : m.services.length ≤ c → l'.count c = 0 ∧ ∀ r, t'.has r c + count started r c = 0)
    (hok : ∀ s s' : Service, m.services[c]? = some s → m'.services[c]? = some s' →
      s.Ok (m.registered c s) (l.count c) (fun r => t.has r c + count rest r c) →
      s.Le s' ∧ (s'.Lives → s.Lives) ∧
      s'.Ok (m'.registered c s') (l'.count c)
        fun r => t'.has r c + (count started r c + count rest r c))
    (hthread : m.Le m' → t'.Ok m' ∧ ∀ u ∈ started, u.Ok m') :
    Inv m' l' (t' :: (started ++ rest)) := by
  have hservice : ∀ (x : ℕ) (s : Service), m.services[x]? = some s →
      ∃ s', m'.services[x]? = some s' ∧ s.Le s' ∧ (s'.Lives → s.Lives) := by
    intro x s hs
    by_cases hx : x = c
    · subst hx
      obtain ⟨hlt, -⟩ := List.getElem?_eq_some_iff.mp hs
      have hs' := List.getElem?_eq_getElem (l := m'.services) (i := x) (by omega)
      have hold := h.service x s hs
      simp only [count_cons] at hold
      obtain ⟨hle, hlives, -⟩ := hok s _ hs hs' hold
      exact ⟨_, hs', hle, hlives⟩
    · exact ⟨s, (hother x hx).trans hs, .refl s, id⟩
  have hback : ∀ (x : ℕ) (s' : Service), m'.services[x]? = some s' →
      ∃ s, m.services[x]? = some s ∧ s.Le s' ∧ (s'.Lives → s.Lives) := by
    intro x s' hs'
    obtain ⟨hlt, -⟩ := List.getElem?_eq_some_iff.mp hs'
    have hs := List.getElem?_eq_getElem (l := m.services) (i := x) (by omega)
    obtain ⟨s'', hs'', hle⟩ := hservice x _ hs
    rw [hs'] at hs''
    cases hs''
    exact ⟨_, hs, hle⟩
  have hle : m.Le m' := by
    intro x s hs
    obtain ⟨s', hs', hle, -⟩ := hservice x s hs
    exact ⟨s', hs', hle⟩
  refine ⟨hholds, hfifo, ?_, ?_, ?_, ?_, ?_⟩
  · intro x s' hs'
    simp only [count_cons, count_append]
    by_cases hx : x = c
    · subst hx
      obtain ⟨s, hs, -⟩ := hback x s' hs'
      have hold := h.service x s hs
      simp only [count_cons] at hold
      exact (hok s s' hs hs' hold).2.2
    · rw [hother x hx] at hs'
      have hold := h.service x s' hs'
      have hreg : m'.registered x s' = m.registered x s' := by
        unfold Memory.registered
        congr 1
        exact propext ⟨htable _ _, hkept _ _ hx⟩
      have hn : (fun r => t'.has r x + (count started r x + count rest r x)) =
          fun r => count (t :: rest) r x := by
        funext r
        have := hcount r x hx
        rw [count_cons]
        omega
      rw [hreg, hlist x hx, hn]
      exact hold
  · intro x hx
    rw [hlength] at hx
    obtain ⟨hl, hn⟩ := h.bound x hx
    simp only [count_cons, count_append] at hn ⊢
    by_cases hxc : x = c
    · subst hxc
      obtain ⟨hl', hn'⟩ := hcl hx
      refine ⟨hl', fun r => ?_⟩
      have := hn r
      have := hn' r
      omega
    · rw [hlist x hxc]
      refine ⟨hl, fun r => ?_⟩
      have := hn r
      have := hcount r x hxc
      omega
  · intro handle x hx
    obtain ⟨s, hs, hhandle⟩ := h.table handle x (htable handle x hx)
    obtain ⟨s', hs', hle', -⟩ := hservice x s hs
    exact ⟨s', hs', hle'.handle.trans hhandle⟩
  · intro x y a' b' ha' hb' hla hlb heq
    obtain ⟨a, ha, hlea, hla'⟩ := hback x a' ha'
    obtain ⟨b, hb, hleb, hlb'⟩ := hback y b' hb'
    apply h.unique x y a b ha hb (hla' hla) (hlb' hlb)
    rw [← hlea.handle, ← hleb.handle]
    exact heq
  · intro u hu
    obtain ⟨ht', hstarted⟩ := hthread hle
    rcases List.mem_cons.mp hu with rfl | hu
    · exact ht'
    · rcases List.mem_append.mp hu with hu | hu
      · exact hstarted u hu
      · exact (h.thread u (List.mem_cons_of_mem t hu)).mono hle

/-- The frame of a step that starts no thread and leaves the handles alone. -/
theorem Inv.put (h : Inv m l (t :: rest)) (hs : m.services[c]? = some s)
    (hservices : m'.services = m.services.set c s') (htable : m'.table = m.table)
    (hholds : m'.global.Holds l') (hfifo : m'.enqueued = m'.dequeued ++ l')
    (hlist : ∀ x ≠ c, l'.count x = l.count x) (hcount : ∀ r, ∀ x ≠ c, t'.has r x = t.has r x)
    (hle : s.Le s') (hlives : s'.Lives → s.Lives)
    (hok : s.Ok (m.registered c s) (l.count c) (fun r => t.has r c + count rest r c) →
      s'.Ok (m.registered c s) (l'.count c) fun r => t'.has r c + count rest r c)
    (hthread : m.Le m' → t'.Ok m') : Inv m' l' (t' :: rest) := by
  obtain ⟨hlt, -⟩ := List.getElem?_eq_some_iff.mp hs
  have hself : m'.services[c]? = some s' := by
    rw [hservices]
    exact List.getElem?_set_self hlt
  apply h.change [] c hholds hfifo
  · rw [hservices, List.length_set]
  · intro x hx
    rw [hservices]
    exact List.getElem?_set_ne hx.symm
  · intro handle x hx
    rwa [htable] at hx
  · intro handle x _ hx
    rwa [htable]
  · exact hlist
  · exact hcount
  · intro hge
    omega
  · intro a b ha hb hold
    rw [hs] at ha
    rw [hself] at hb
    cases ha
    cases hb
    refine ⟨hle, hlives, ?_⟩
    have hreg : m'.registered c s' = m.registered c s := by
      unfold Memory.registered
      rw [htable, hle.handle]
    simp only [count_nil, Nat.zero_add, hreg]
    exact hok hold
  · intro hle'
    exact ⟨hthread hle', by simp⟩

/-- The thread goes on with what it had, and the memory is as it was. -/
theorem Inv.same (h : Inv m l (t :: rest)) (hhas : ∀ r x, t'.has r x = t.has r x) (hok : t'.Ok m) :
    Inv m l (t' :: rest) where
  holds := h.holds
  fifo := h.fifo
  service c s hs := by simpa only [count_cons, hhas] using h.service c s hs
  bound c hc := by simpa only [count_cons, hhas] using h.bound c hc
  table := h.table
  unique := h.unique
  thread u hu := by
    rcases List.mem_cons.mp hu with rfl | hu
    · exact hok
    · exact h.thread u (List.mem_cons_of_mem t hu)

end SkynetEureka.Scheduler
