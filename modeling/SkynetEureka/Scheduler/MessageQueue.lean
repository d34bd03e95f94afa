import SkynetEureka.Lib.Linked
import SkynetEureka.Lib.RingBuffer
import SkynetEureka.Server.Send

/-!
# Message queues (`skynet_mq.c`)

Each service has a queue of messages, and the queues that have messages stand in the global list. Every
function here is what the source does between the lock and the unlock; the ones that push the queue to
the global list under its lock say so in their result, and `Memory.globalPush` follows in the same step.
-/

namespace SkynetEureka.Scheduler

open Lib Server

/-- `DEFAULT_QUEUE_SIZE` -/
def defaultQueueSize : ℕ := 64

/-- `MQ_OVERLOAD` -/
def mqOverload : ℕ := 1024

/-- `struct message_queue`, and how often it has been freed -/
structure MessageQueue where
  handle : ℕ
  /-- `cap`, `head`, `tail` and `queue` -/
  ring : RingBuffer Message
  release : Bool
  inGlobal : Bool
  overload : ℕ
  overloadThreshold : ℕ
  freed : ℕ

/-- `skynet_mq_create`: the queue counts as listed until the service is launched. -/
def skynetMqCreate (handle : ℕ) : MessageQueue where
  handle := handle
  ring := .empty defaultQueueSize
  release := false
  inGlobal := true
  overload := 0
  overloadThreshold := mqOverload
  freed := 0

/-- The loop `while (length > q->overload_threshold)`, at most the given number of rounds -/
def raiseThreshold (length : ℕ) : ℕ → MessageQueue → MessageQueue
  | 0, q => q
  | n + 1, q =>
    if q.overloadThreshold < length then
      raiseThreshold length n
        { q with overload := length, overloadThreshold := q.overloadThreshold * 2 }
    else q

/-- `skynet_mq_length` -/
def skynetMqLength (q : MessageQueue) : ℕ := q.ring.length

/-- `skynet_mq_overload` -/
def skynetMqOverload (q : MessageQueue) : MessageQueue × ℕ :=
  ({ q with overload := 0 }, q.overload)

/-- `skynet_mq_pop` -/
def skynetMqPop (q : MessageQueue) : MessageQueue × Option Message :=
  match q.ring.pop with
  | some (message, ring) =>
    (raiseThreshold ring.length ring.length { q with ring := ring }, some message)
  | none =>
    -- reset overload_threshold when queue is empty
    ({ q with overloadThreshold := mqOverload, inGlobal := false }, none)

/-- `skynet_mq_push`, and whether the queue is pushed to the global list -/
def skynetMqPush (q : MessageQueue) (message : Message) : MessageQueue × Bool :=
  ({ q with ring := q.ring.push (· * 2) message, inGlobal := true }, !q.inGlobal)

/-- `skynet_mq_mark_release`, and whether the queue is pushed to the global list -/
def skynetMqMarkRelease (q : MessageQueue) : Option (MessageQueue × Bool) :=
  -- assert(q->release == 0)
  if q.release then none else some ({ q with release := true }, !q.inGlobal)

/-! ## The global list -/

/-- `struct global_queue`, and the fields `next` of the queues -/
structure GlobalQueue where
  head : Option ℕ
  tail : Option ℕ
  next : ℕ → Option ℕ

/-- `skynet_mq_init` -/
def skynetMqInit : GlobalQueue := ⟨none, none, fun _ => none⟩

/-- `skynet_globalmq_push` -/
def skynetGlobalmqPush (g : GlobalQueue) (queue : ℕ) : Option GlobalQueue :=
  -- assert(queue->next == NULL)
  if g.next queue = none then
    match g.tail with
    | some tail => some ⟨g.head, some queue, Function.update g.next tail (some queue)⟩
    | none => some ⟨some queue, some queue, g.next⟩
  else none

/-- `skynet_globalmq_pop` -/
def skynetGlobalmqPop (g : GlobalQueue) : Option (GlobalQueue × Option ℕ) :=
  match g.head with
  | none => some (g, none)
  | some mq =>
    match g.next mq with
    | none =>
      -- assert(mq == q->tail)
      if g.tail = some mq then some (⟨none, none, g.next⟩, some mq) else none
    | some head => some (⟨some head, g.tail, Function.update g.next mq none⟩, some mq)

/-! ## What the queues hold -/

section Raise

variable {q : MessageQueue} {length n : ℕ}

/-- The loop changes nothing but the two fields of the overload. -/
theorem raiseThreshold_fields (length n : ℕ) (q : MessageQueue) :
    (raiseThreshold length n q).handle = q.handle ∧ (raiseThreshold length n q).ring = q.ring ∧
      (raiseThreshold length n q).release = q.release ∧
      (raiseThreshold length n q).inGlobal = q.inGlobal ∧
      (raiseThreshold length n q).freed = q.freed := by
  induction n generalizing q with
  | zero => exact ⟨rfl, rfl, rfl, rfl, rfl⟩
  | succ n ih =>
    unfold raiseThreshold
    split
    · exact ih _
    · exact ⟨rfl, rfl, rfl, rfl, rfl⟩

/-- The number of rounds is enough: behind the loop the threshold is not passed, and an overload is
reported exactly if it was passed in front. -/
theorem raiseThreshold_spec (hpos : 0 < q.overloadThreshold)
    (h : length ≤ q.overloadThreshold + n) :
    length ≤ (raiseThreshold length n q).overloadThreshold ∧
      (raiseThreshold length n q).overload =
        if q.overloadThreshold < length then length else q.overload := by
  induction n generalizing q with
  | zero =>
    rw [if_neg (by omega)]
    exact ⟨h, rfl⟩
  | succ n ih =>
    unfold raiseThreshold
    split
    case isTrue hlt =>
      obtain ⟨hle, hoverload⟩ := ih
        (q := { q with overload := length, overloadThreshold := q.overloadThreshold * 2 })
        (by show 0 < q.overloadThreshold * 2; omega)
        (by show length ≤ q.overloadThreshold * 2 + n; omega)
      refine ⟨hle, ?_⟩
      -- a further round writes the same length again
      rw [hoverload]
      exact ite_self length
    case isFalse hge => exact ⟨by omega, rfl⟩

end Raise

section Pop

variable {q : MessageQueue} {l : List Message} {m : Message}

/-- The first message comes out, and no other field changes but those of the overload. -/
theorem skynetMqPop_cons (h : q.ring.Holds (m :: l)) :
    ∃ q', skynetMqPop q = (q', some m) ∧ q'.ring.Holds l ∧ q'.handle = q.handle ∧
      q'.release = q.release ∧ q'.inGlobal = q.inGlobal ∧ q'.freed = q.freed := by
  obtain ⟨ring, hpop, hring⟩ := h.pop_cons
  obtain ⟨hhandle, hring', hrelease, hglobal, hfreed⟩ :=
    raiseThreshold_fields ring.length ring.length { q with ring := ring }
  refine ⟨_, ?_, ?_, hhandle, hrelease, hglobal, hfreed⟩
  · unfold skynetMqPop
    rw [hpop]
  · rw [hring']
    exact hring

theorem skynetMqPop_nil (h : q.ring.Holds []) :
    skynetMqPop q = ({ q with overloadThreshold := mqOverload, inGlobal := false }, none) := by
  unfold skynetMqPop
  rw [h.pop_nil]

/-- The overload that a pop reports is the number of messages that are left, and the next one is
reported when there are more than the new threshold. -/
theorem skynetMqPop_overload (h : q.ring.Holds (m :: l)) (hpos : 0 < q.overloadThreshold) :
    l.length ≤ (skynetMqPop q).1.overloadThreshold ∧
      (skynetMqPop q).1.overload =
        if q.overloadThreshold < l.length then l.length else q.overload := by
  obtain ⟨ring, hpop, hring⟩ := h.pop_cons
  unfold skynetMqPop
  rw [hpop, ← hring.length_eq]
  exact raiseThreshold_spec (q := { q with ring := ring }) hpos (by omega)

/-- A message is appended, whatever the capacity. -/
theorem ring_push (h : q.ring.Holds l) (m : Message) :
    (skynetMqPush q m).1.ring.Holds (l ++ [m]) := by
  have hcap := h.head_lt
  exact h.push (show q.ring.cap < q.ring.cap * 2 by omega) m

end Pop

/-! ## What the global list holds -/

/-- The queues of the list, from the head to the tail; the others have no successor. -/
structure GlobalQueue.Holds (g : GlobalQueue) (l : List ℕ) : Prop where
  linked : Linked g.next g.head l
  tail : g.tail = l.getLast?
  nodup : l.Nodup
  next : ∀ q ∉ l, g.next q = none

namespace GlobalQueue.Holds

variable {g : GlobalQueue} {l : List ℕ} {q : ℕ}

theorem init : skynetMqInit.Holds [] := ⟨rfl, rfl, List.nodup_nil, fun _ _ => rfl⟩

/-- The last one of the list has no successor. -/
theorem next_getLast (h : g.Holds (l ++ [q])) : g.next q = none := by
  have hlinked := h.linked
  generalize g.head = p at hlinked
  clear h
  induction l generalizing p with
  | nil => exact hlinked.2
  | cons a l ih => exact ih _ hlinked.2

/-- A queue that is not in the list comes to its end. -/
theorem push (h : g.Holds l) (hq : q ∉ l) :
    ∃ g', skynetGlobalmqPush g q = some g' ∧ g'.Holds (l ++ [q]) := by
  have hnext := h.next q hq
  have hnodup : (l ++ [q]).Nodup := by
    apply List.nodup_append.mpr
    refine ⟨h.nodup, List.nodup_singleton q, ?_⟩
    intro a ha b hb heq
    rw [List.mem_singleton] at hb
    exact hq (by rw [← hb, ← heq]; exact ha)
  have htail : (l ++ [q]).getLast? = some q := by simp
  unfold skynetGlobalmqPush
  rw [if_pos hnext]
  rcases List.eq_nil_or_concat l with rfl | ⟨l, t, rfl⟩
  · rw [h.tail]
    refine ⟨_, rfl, ⟨rfl, hnext⟩, htail.symm, hnodup, ?_⟩
    intro a _
    exact h.next a List.not_mem_nil
  · rw [List.concat_eq_append] at *
    have hlast : (l ++ [t]).getLast? = some t := by simp
    rw [h.tail, hlast]
    have hqt : q ≠ t := fun heq => hq (by simp [heq])
    have htl : t ∉ l := by
      have := List.nodup_append.mp h.nodup
      intro hmem
      exact this.2.2 t hmem t (List.mem_singleton_self t) rfl
    refine ⟨_, rfl, ?_, htail.symm, hnodup, ?_⟩
    · apply h.linked.concat
      · exact Function.update_self t _ _
      · show Function.update g.next t (some q) q = none
        rw [Function.update_of_ne hqt, hnext]
      · intro b hb
        apply Function.update_of_ne
        intro heq
        exact htl (heq ▸ hb)
    · intro a ha
      have hat : a ≠ t := fun heq => ha (by simp [heq])
      show Function.update g.next t (some q) a = none
      rw [Function.update_of_ne hat]
      exact h.next a fun hmem => ha (List.mem_append_left _ hmem)

theorem pop_nil (h : g.Holds []) : skynetGlobalmqPop g = some (g, none) := by
  unfold skynetGlobalmqPop
  rw [Linked.nil_iff.mp h.linked]

/-- The head of the list comes out. -/
theorem pop_cons (h : g.Holds (q :: l)) :
    ∃ g', skynetGlobalmqPop g = some (g', some q) ∧ g'.Holds l := by
  obtain ⟨hhead, hlinked⟩ := h.linked
  obtain ⟨hql, hnodup⟩ := List.nodup_cons.mp h.nodup
  unfold skynetGlobalmqPop
  rw [hhead]
  cases l with
  | nil =>
    have hnext : g.next q = none := hlinked
    have htail : g.tail = some q := h.tail
    simp only [hnext, htail]
    refine ⟨_, rfl, rfl, rfl, hnodup, ?_⟩
    intro a _
    by_cases haq : a = q
    · rw [haq]
      exact hnext
    · exact h.next a (by simp [haq])
  | cons b l =>
    obtain ⟨hb, hrest⟩ := hlinked
    simp only [hb]
    refine ⟨_, rfl, ⟨rfl, ?_⟩, ?_, hnodup, ?_⟩
    · have hbq : b ≠ q := fun heq => hql (by simp [heq])
      show Linked (Function.update g.next q none) (Function.update g.next q none b) l
      rw [Function.update_of_ne hbq]
      apply hrest.congr
      intro a ha
      apply Function.update_of_ne
      intro heq
      exact hql (heq ▸ List.mem_cons_of_mem b ha)
    · rw [h.tail, List.getLast?_cons_cons]
    · intro a ha
      by_cases haq : a = q
      · rw [haq]
        exact Function.update_self q _ _
      · show Function.update g.next q none a = none
        rw [Function.update_of_ne haq]
        apply h.next
        simp only [List.mem_cons] at ha ⊢
        tauto

end GlobalQueue.Holds

end SkynetEureka.Scheduler
