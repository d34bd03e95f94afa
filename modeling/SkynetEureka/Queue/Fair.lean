import SkynetEureka.Queue.Lock

/-!
# A fair re-entrant lock

One coroutine at a time is inside, they get in in the order in which they have come, and when nobody
is inside and nobody has been woken the lock is free (`queue_fair`). The lock is free, it is held,
or it is handed over to a coroutine that has been woken and has not gone on yet.
-/

namespace SkynetEureka.Queue

open Lib Function

variable {V : Type} {traceback raised : V → V} {s s' : State V} {thread : ℕ}

/-- The coroutine `owner` is inside, those of `waiting` wait in this order, and nobody has been
refused. -/
structure Orderly (s : State V) (owner : Option ℕ) (waiting : List ℕ) : Prop where
  depth : ∀ t, (s.depth t : ℤ) = if owner = some t then s.ref else 0
  asleep : ∀ t, s.asleep t = true ↔ t ∈ waiting
  nodup : waiting.Nodup
  order : s.called = s.entered ++ waiting
  refused : s.refused = []

/-- What the lock may be. -/
inductive Locked (s : State V) : Prop
  | free (orderly : Orderly s none []) (current : s.currentThread = none) (ref : s.ref = 0)
    (queue : s.threadQueue = []) (woken : s.wakeupQueue = [])
  | held (t : ℕ) (orderly : Orderly s (some t) s.threadQueue) (current : s.currentThread = some t)
    (ref : 0 < s.ref) (woken : s.wakeupQueue = [])
  | handed (t : ℕ) (orderly : Orderly s none (t :: s.threadQueue))
    (current : s.currentThread = some t) (ref : s.ref = 0) (woken : s.wakeupQueue = [t])

theorem locked_init : Locked (State.init : State V) :=
  .free ⟨fun _ => rfl, fun _ => by simp [State.init], List.nodup_nil, rfl, rfl⟩ rfl rfl rfl rfl

theorem Orderly.depth_zero {waiting : List ℕ} (h : Orderly s none waiting) (t : ℕ) :
    s.depth t = 0 := by
  have := h.depth t
  rw [if_neg nofun] at this
  omega

theorem Orderly.depth_ne_zero {t : ℕ} {waiting : List ℕ} (h : Orderly s (some t) waiting)
    (hne : s.depth thread ≠ 0) : thread = t := by
  by_contra hother
  have := h.depth thread
  rw [if_neg fun heq => hother (Option.some.inj heq).symm] at this
  omega

/-- Somebody gets into a lock that nobody holds. -/
theorem Locked.enter (hdepth : ∀ t, s.depth t = 0)
    (hasleep : ∀ t, s.asleep t = true ↔ t ∈ s.threadQueue) (hnodup : s.threadQueue.Nodup)
    (horder : s.called = s.entered ++ thread :: s.threadQueue) (hrefused : s.refused = [])
    (href : s.ref = 0) (hwoken : s.wakeupQueue = []) : Locked (s.enter thread) := by
  have hone : (s.enter thread).ref = 1 := by
    show s.ref + 1 = 1
    omega
  have hentered : (s.enter thread).entered = s.entered ++ [thread] := if_pos (hdepth thread)
  refine .held thread ⟨fun t => ?_, hasleep, hnodup, ?_, hrefused⟩ rfl (by omega) hwoken
  · show ((update s.depth thread (s.depth thread + 1) t : ℕ) : ℤ) = _
    rw [hone, hdepth thread]
    by_cases heq : t = thread
    · rw [heq, update_self, if_pos rfl]
      rfl
    · rw [update_of_ne heq, hdepth t, if_neg fun h => heq (Option.some.inj h).symm]
      rfl
  · show s.called = (s.enter thread).entered ++ s.threadQueue
    rw [hentered, horder, List.append_assoc, List.singleton_append]

/-- Somebody comes who has to wait. -/
theorem Orderly.wait {owner : Option ℕ} {waiting : List ℕ} (h : Orderly s owner waiting)
    (hawake : s.asleep thread = false) (hother : owner ≠ some thread) :
    Orderly { s with
      called := if s.depth thread = 0 then s.called ++ [thread] else s.called
      threadQueue := s.threadQueue ++ [thread]
      asleep := update s.asleep thread true } owner (waiting ++ [thread]) := by
  have hnot : thread ∉ waiting := fun hmem => by
    rw [(h.asleep thread).mpr hmem] at hawake
    cases hawake
  have hzero : s.depth thread = 0 := by
    have := h.depth thread
    rw [if_neg hother] at this
    omega
  refine ⟨h.depth, fun t => ?_, ?_, ?_, h.refused⟩
  · show update s.asleep thread true t = true ↔ _
    rw [List.mem_append, List.mem_singleton]
    by_cases heq : t = thread
    · rw [heq, update_self]
      exact ⟨fun _ => .inr rfl, fun _ => rfl⟩
    · rw [update_of_ne heq, h.asleep t]
      exact ⟨.inl, fun h => h.resolve_right heq⟩
  · exact List.nodup_append_comm.mp (List.nodup_cons.mpr ⟨hnot, h.nodup⟩)
  · show (if s.depth thread = 0 then s.called ++ [thread] else s.called) = _
    rw [if_pos hzero, h.order, List.append_assoc]

theorem Locked.call (h : Locked s) (hawake : s.asleep thread = false) :
    Locked (s.call thread) := by
  unfold State.call
  dsimp only
  cases h with
  | free orderly current ref queue woken =>
    rw [if_neg fun hwait => hwait.1 current]
    refine Locked.enter orderly.depth_zero ?_ ?_ ?_ orderly.refused ref woken
    · show ∀ t, s.asleep t = true ↔ t ∈ s.threadQueue
      rw [queue]
      exact orderly.asleep
    · show s.threadQueue.Nodup
      rw [queue]
      exact orderly.nodup
    · show (if s.depth thread = 0 then s.called ++ [thread] else s.called) = _
      rw [if_pos (orderly.depth_zero thread), orderly.order, queue, List.append_nil]
  | held t orderly current ref woken =>
    by_cases heq : thread = t
    · -- it comes once more
      subst heq
      rw [if_neg fun hwait => hwait.2 current]
      have hdepth : s.depth thread ≠ 0 := fun hzero => by
        have := orderly.depth thread
        rw [if_pos rfl] at this
        omega
      refine .held thread ⟨fun t => ?_, orderly.asleep, orderly.nodup, ?_, orderly.refused⟩ rfl
        (by show 0 < s.ref + 1; omega) woken
      · show ((update s.depth thread (s.depth thread + 1) t : ℕ) : ℤ) =
          if some thread = some t then s.ref + 1 else 0
        have := orderly.depth t
        by_cases heq : t = thread
        · subst heq
          rw [if_pos rfl] at this ⊢
          rw [update_self]
          omega
        · rw [update_of_ne heq, this, if_neg fun h => heq (Option.some.inj h).symm,
            if_neg fun h => heq (Option.some.inj h).symm]
      · show (if s.depth thread = 0 then s.called ++ [thread] else s.called) =
          (if s.depth thread = 0 then s.entered ++ [thread] else s.entered) ++ s.threadQueue
        rw [if_neg hdepth, if_neg hdepth]
        exact orderly.order
    · have hother : some t ≠ some thread := fun h => heq (Option.some.inj h).symm
      rw [if_pos ⟨by rw [current]; exact nofun, by rw [current]; exact hother⟩]
      exact .held t (orderly.wait hawake hother) current ref woken
  | handed t orderly current ref woken =>
    have hother : some t ≠ some thread := fun h => by
      have := (orderly.asleep thread).mpr (Option.some.inj h ▸ List.mem_cons_self)
      rw [hawake] at this
      cases this
    rw [if_pos ⟨by rw [current]; exact nofun, by rw [current]; exact hother⟩]
    exact .handed t (orderly.wait hawake nofun) current ref woken

/-- The coroutine that has been woken is the one to which the lock has been handed over. -/
theorem Locked.resume (h : Locked s) (hmem : thread ∈ s.wakeupQueue) :
    Locked (s.resume thread) := by
  unfold State.resume
  dsimp only
  cases h with
  | free orderly current ref queue woken => exact absurd hmem (woken ▸ List.not_mem_nil)
  | held t orderly current ref woken => exact absurd hmem (woken ▸ List.not_mem_nil)
  | handed t orderly current ref woken =>
    obtain rfl : thread = t := List.mem_singleton.mp (woken ▸ hmem)
    obtain ⟨hnot, hnodup⟩ := List.nodup_cons.mp orderly.nodup
    rw [if_pos ref]
    refine Locked.enter orderly.depth_zero ?_ hnodup orderly.order orderly.refused ref ?_
    · intro t
      show update s.asleep thread false t = true ↔ t ∈ s.threadQueue
      by_cases heq : t = thread
      · subst heq
        rw [update_self]
        exact ⟨nofun, fun hmem => absurd hmem hnot⟩
      · rw [update_of_ne heq, orderly.asleep t, List.mem_cons]
        exact ⟨fun h => h.resolve_left heq, .inr⟩
    · show s.wakeupQueue.erase thread = []
      rw [woken, List.erase_cons_head]

/-- Who leaves hands the lock over, unless it is still inside of another call. -/
theorem Locked.leave (h : Locked s) (hinside : s.depth thread ≠ 0) (outcome : Outcome V) :
    Locked (s.leave traceback raised thread outcome) := by
  cases h with
  | free orderly current ref queue woken => exact absurd (orderly.depth_zero thread) hinside
  | handed t orderly current ref woken => exact absurd (orderly.depth_zero thread) hinside
  | held t orderly current ref woken =>
    obtain rfl := orderly.depth_ne_zero hinside
    have hdepth : (s.depth thread : ℤ) = s.ref := by
      rw [orderly.depth thread, if_pos rfl]
    have hother : ∀ t, t ≠ thread → s.depth t = 0 := fun t hne => by
      by_contra hpos
      exact hne (orderly.depth_ne_zero hpos)
    -- the depth that is left
    have hleft : ∀ t, ((update s.depth thread (s.depth thread - 1) t : ℕ) : ℤ) =
        if some thread = some t then s.ref - 1 else 0 := by
      intro t
      by_cases heq : t = thread
      · subst heq
        rw [update_self, if_pos rfl]
        omega
      · rw [update_of_ne heq, hother t heq, if_neg fun h => heq (Option.some.inj h).symm]
        rfl
    unfold State.leave State.release
    dsimp only
    by_cases hzero : s.ref - 1 = 0
    · rw [if_pos hzero]
      have hout : ∀ t, ((update s.depth thread (s.depth thread - 1) t : ℕ) : ℤ) = 0 := by
        intro t
        rw [hleft t, hzero, ite_self]
      cases hqueue : s.threadQueue with
      | nil =>
        rw [hqueue] at orderly
        exact .free ⟨hout, orderly.asleep, orderly.nodup, orderly.order, orderly.refused⟩ rfl hzero
          rfl woken
      | cons next queue =>
        rw [hqueue] at orderly
        have hasleep : s.asleep next = true := (orderly.asleep next).mpr List.mem_cons_self
        unfold State.wakeup
        dsimp only
        rw [if_pos hasleep]
        refine .handed next ⟨hout, orderly.asleep, orderly.nodup, orderly.order, orderly.refused⟩
          rfl hzero ?_
        show s.wakeupQueue ++ [next] = [next]
        rw [woken, List.nil_append]
    · rw [if_neg hzero]
      exact .held thread ⟨hleft, orderly.asleep, orderly.nodup, orderly.order, orderly.refused⟩
        current (by show 0 < s.ref - 1; omega) woken

theorem Locked.step {a : Action V} (h : Locked s) (hstep : s.step traceback raised a = some s') :
    Locked s' := by
  cases a with
  | call thread =>
    rw [State.step, Option.ite_none_left_eq_some] at hstep
    obtain ⟨hawake, heq⟩ := hstep
    exact Option.some.inj heq ▸ h.call (Bool.not_eq_true _ ▸ hawake)
  | resume thread =>
    rw [State.step, Option.ite_none_right_eq_some] at hstep
    obtain ⟨hmem, heq⟩ := hstep
    exact Option.some.inj heq ▸ h.resume hmem
  | leave thread outcome =>
    rw [State.step, Option.ite_none_left_eq_some] at hstep
    obtain ⟨hinside, heq⟩ := hstep
    exact Option.some.inj heq ▸ h.leave (fun hzero => hinside (.inr hzero)) outcome

/-! ## What callers get -/

/-- A caller gets what its function has come to: its results, or its error as `debug.traceback` and
`assert` raise it. -/
def Passed (traceback raised : V → V) (r : Return V) : Prop :=
  (∀ results, r.given = .ok results → r.passed = .ok results) ∧
    ∀ e, r.given = .error e → r.passed = .error (raised (traceback e))

theorem passed_assertRet (thread : ℕ) (outcome : Outcome V) : Passed traceback raised
    ⟨thread, outcome, assertRet raised (xpcall traceback outcome)⟩ := by
  constructor
  · intro results hgiven
    rw [show outcome = .ok results from hgiven]
    rfl
  · intro e hgiven
    rw [show outcome = .error e from hgiven]
    rfl

theorem returned_enter : (s.enter thread).returned = s.returned := rfl

theorem returned_call : (s.call thread).returned = s.returned := by
  unfold State.call
  rw [apply_ite State.returned]
  exact ite_self _

theorem returned_resume : (s.resume thread).returned = s.returned := by
  unfold State.resume
  rw [apply_ite State.returned]
  exact ite_self _

theorem returned_release : s.release.returned = s.returned := by
  unfold State.release State.wakeup
  dsimp only
  split_ifs
  · split
    · rfl
    · split_ifs
      · rfl
      · rfl
  · rfl

theorem passed_step {a : Action V} (h : ∀ r ∈ s.returned, Passed traceback raised r)
    (hstep : s.step traceback raised a = some s') :
    ∀ r ∈ s'.returned, Passed traceback raised r := by
  cases a with
  | call thread =>
    rw [State.step, Option.ite_none_left_eq_some] at hstep
    rw [← Option.some.inj hstep.2, returned_call]
    exact h
  | resume thread =>
    rw [State.step, Option.ite_none_right_eq_some] at hstep
    rw [← Option.some.inj hstep.2, returned_resume]
    exact h
  | leave thread outcome =>
    rw [State.step, Option.ite_none_left_eq_some] at hstep
    rw [← Option.some.inj hstep.2]
    show ∀ r ∈ s.release.returned ++ [_], _
    rw [returned_release]
    intro r hr
    rcases List.mem_append.mp hr with hold | hnew
    · exact h r hold
    · rw [List.mem_singleton.mp hnew]
      exact passed_assertRet thread outcome

/-! ## The queue -/

/-- Nobody holds the lock, and nobody waits for it. -/
structure State.Free (s : State V) : Prop where
  current : s.currentThread = none
  ref : s.ref = 0
  queue : s.threadQueue = []
  awake : ∀ t, s.asleep t = false

/-- When nobody is inside, the lock is free or has been handed over. -/
theorem Locked.free_of_left (h : Locked s) (hleft : ∀ t, s.depth t = 0)
    (hwoken : s.wakeupQueue = []) : s.Free := by
  cases h with
  | free orderly current ref queue woken =>
    exact ⟨current, ref, queue, fun t =>
      Bool.eq_false_iff.mpr fun h => absurd ((orderly.asleep t).mp h) List.not_mem_nil⟩
  | held t orderly current ref woken =>
    have := orderly.depth t
    rw [if_pos rfl, hleft t] at this
    omega
  | handed t orderly current ref woken =>
    rw [hwoken] at woken
    cases woken

/-- **The critical section is a fair re-entrant lock.** One coroutine at a time is inside. Those
that wait have come after those that have got in, and get in in this order; none is refused. Each
caller gets what its function has come to. And when all have left and nobody has been woken, the
lock is free and nobody waits. -/
theorem queue_fair {acts : List (Action V)}
    (hrun : run (State.step traceback raised) .init acts = some s) :
    (∀ t t', s.depth t ≠ 0 → s.depth t' ≠ 0 → t = t') ∧
      (∃ waiting : List ℕ, waiting.Nodup ∧ (∀ t, s.asleep t = true ↔ t ∈ waiting) ∧
        s.called = s.entered ++ waiting ∧ s.refused = []) ∧
      (∀ r ∈ s.returned, Passed traceback raised r) ∧
      ((∀ t, s.depth t = 0) → s.wakeupQueue = [] → s.Free) := by
  have h : Locked s := run_invariant_of_step (fun s a s' h hstep => h.step hstep) locked_init hrun
  have hpassed : ∀ r ∈ s.returned, Passed traceback raised r :=
    @run_invariant_of_step _ _ _ _ _ _ (fun s => ∀ r ∈ s.returned, Passed traceback raised r)
      (fun s a s' h hstep => passed_step h hstep)
      (fun r hr => absurd hr List.not_mem_nil) hrun
  refine ⟨?_, ?_, hpassed, h.free_of_left⟩
  · intro t t' ht ht'
    cases h with
    | free orderly current ref queue woken => exact absurd (orderly.depth_zero t) ht
    | held t₀ orderly current ref woken =>
      rw [orderly.depth_ne_zero ht, orderly.depth_ne_zero ht']
    | handed t₀ orderly current ref woken => exact absurd (orderly.depth_zero t) ht
  · cases h with
    | free orderly current ref queue woken =>
      exact ⟨[], orderly.nodup, orderly.asleep, orderly.order, orderly.refused⟩
    | held t orderly current ref woken =>
      exact ⟨s.threadQueue, orderly.nodup, orderly.asleep, orderly.order, orderly.refused⟩
    | handed t orderly current ref woken =>
      exact ⟨t :: s.threadQueue, orderly.nodup, orderly.asleep, orderly.order, orderly.refused⟩

/-- The coroutine 1 is inside, and inside of another call, when 2 and 3 come; it leaves by an error
and 2 goes on. -/
def handover : List (Action ℕ) :=
  [.call 1, .call 1, .call 2, .call 3, .leave 1 (.ok []), .leave 1 (.error 7), .resume 2]

theorem queue_fair_handover : ∃ s : State ℕ, run (State.step id id) .init handover = some s ∧
    s.depth 2 ≠ 0 ∧ s.depth 1 = 0 := by
  obtain ⟨s, hrun, htwo⟩ : ∃ s : State ℕ, run (State.step id id) .init handover = some s ∧
      s.depth 2 = 1 := ⟨_, rfl, rfl⟩
  have hinside : s.depth 2 ≠ 0 := by omega
  refine ⟨s, hrun, hinside, ?_⟩
  by_contra hone
  exact absurd ((queue_fair hrun).1 1 2 hone hinside) (by decide)

end SkynetEureka.Queue
