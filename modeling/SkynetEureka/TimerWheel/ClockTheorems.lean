import SkynetEureka.Lib.Agenda
import SkynetEureka.Lib.Run
import SkynetEureka.TimerWheel.TimerTheorems
import Mathlib

/-!
# The timing wheel is a queue sorted by expiry

What the timer thread dispatches is the agenda of the requests: tick by tick, and within a tick
in the order of `timer_add`. The dates are counted in shifts since the start, so that they do
not wrap where the counter does.
-/

namespace SkynetEureka.TimerWheel

open Lib

/-! ## `timerExecute` -/

/-- The near list that `timer_execute` looks at holds the nodes that expire now. -/
lemma place_eq_near {e c : ℕ} : place e c = .near (c % 2 ^ 8) ↔ e = c := by
  rw [place]
  split
  · rw [Place.near.injEq]
    omega
  · simp only [reduceCtorEq, false_iff]
    rintro rfl
    exact absurd rfl ‹_›

section Execute

variable {α : Type*} {T T' : Timer α} {l current : List (TimerNode α)}

lemma Filed.near_now (f : Filed T l) :
    T.near (T.time &&& timeNearMask) = l.filter fun x => x.expire = T.time := by
  have hidx : T.time &&& timeNearMask = T.time % 2 ^ 8 := Nat.and_two_pow_sub_one_eq_mod _ 8
  rw [hidx]
  refine (f (.near (T.time % 2 ^ 8))).trans (List.filter_congr fun x _ => ?_)
  simp only [place_eq_near]

lemma Filed.execute_none (f : Filed T l) :
    timerExecute T = none ↔ ∀ x ∈ l, x.expire ≠ T.time := by
  simp only [timerExecute, f.near_now]
  split
  · rename_i h
    rw [List.filter_eq_nil_iff] at h
    simpa using h
  · rename_i h
    simpa [List.filter_eq_nil_iff] using h

/-- **`timer_execute`** takes the nodes that expire now, and leaves the others filed. -/
lemma Filed.execute_some (f : Filed T l) (h : timerExecute T = some (current, T')) :
    current = l.filter (fun x => x.expire = T.time) ∧ T'.time = T.time ∧
      Filed T' (l.filter fun x => x.expire ≠ T.time) := by
  simp only [timerExecute, f.near_now] at h
  split at h
  · cases h
  · cases h
    refine ⟨rfl, rfl, fun p => ?_⟩
    have hidx : T.time &&& timeNearMask = T.time % 2 ^ 8 := Nat.and_two_pow_sub_one_eq_mod _ 8
    rw [List.filter_filter]
    by_cases hp : p = .near (T.time % 2 ^ 8)
    · subst hp
      simp only [Timer.list, hidx, Function.update_self]
      refine (List.filter_eq_nil_iff.mpr fun x _ => ?_).symm
      simp only [place_eq_near, Bool.and_eq_true, decide_eq_true_iff]
      exact fun h => h.2 h.1
    · have hsame : Timer.list { T with near := Function.update T.near (T.time % 2 ^ 8) [] } p =
          T.list p := by
        cases p with
        | near i => exact Function.update_of_ne (fun h => hp (by rw [h])) _ _
        | level i idx => rfl
      rw [hidx, hsame, f p]
      refine List.filter_congr fun x _ => ?_
      by_cases hx : place x.expire T.time = p
      · have : x.expire ≠ T.time := by
          rintro heq
          exact hp (by rw [← hx, place_eq_near.mpr heq])
        simp [hx, this]
      · simp [hx]

end Execute

/-! ## The history -/

/-- The tick in which a request is due, counted from the start. -/
def Request.due (r : Request) : ℕ := r.tick + r.delay.time

/-- The value that `timer_add` stores into `node->expire`. -/
def Request.expire (r : Request) : ℕ := (r.now + r.delay.time) % 2 ^ 32

/-- The node of a request. -/
def Request.node (r : Request) : TimerNode Request := ⟨r.expire, r⟩

@[simp] lemma Request.node_expire (r : Request) : r.node.expire = r.expire := rfl

@[simp] lemma Request.node_arg (r : Request) : r.node.arg = r := rfl

/-- The requests that are due after the current tick. -/
def Clock.waiting (s : Clock) : List Request := s.added.filter fun r => s.ticks < r.due

/-- The requests dispatched so far. -/
def Clock.served (s : Clock) : List Request := s.dispatched.map (·.request)

/-- The history fits the counter: requests are numbered in the order of the calls, and say when
the call was; the dispatches fit their requests. -/
structure Clock.Recorded (start : ℕ) (s : Clock) : Prop where
  time : s.timer.time = (start + s.ticks) % 2 ^ 32
  seq : s.added.map (·.seq) = List.range s.added.length
  sorted : s.added.Pairwise fun r r' => r.seq < r'.seq ∧ r.tick ≤ r'.tick
  added : ∀ r ∈ s.added, r.tick ≤ s.ticks ∧ r.now = (start + r.tick) % 2 ^ 32
  on_time : ∀ d ∈ s.dispatched, d.tick = d.request.due ∧ d.now = d.request.expire

/-- The invariant: the waiting requests are filed, and what has been dispatched, with what
`dispatch_list` has in hand, is the agenda up to the current tick. -/
structure Clock.Keeps (start : ℕ) (s : Clock) : Prop extends s.Recorded start where
  filed : Filed s.timer (s.waiting.map Request.node)
  idle : s.phase = .idle → s.served = agenda Request.due s.added s.ticks
  busy : ∀ {shifted current}, s.phase = .dispatching shifted current →
    shifted = true ∧ s.served ++ current.map (·.arg) = agenda Request.due s.added s.ticks ∧
      ∀ x ∈ current, x.arg.due = s.ticks ∧ x.expire = x.arg.expire ∧ x.expire = s.timer.time

lemma Clock.Recorded.expire_eq {start : ℕ} {s : Clock} (h : s.Recorded start) {r : Request}
    (hr : r ∈ s.added) : r.expire = (start + r.due) % 2 ^ 32 := by
  have := (h.added r hr).2
  rw [Request.expire, Request.due, this]
  omega

namespace Clock.Keeps

variable {start : ℕ} {s s' : Clock}

lemma init (hstart : start < 2 ^ 32) : (Clock.init start).Keeps start where
  time := (Nat.mod_eq_of_lt hstart).symm
  seq := rfl
  sorted := List.Pairwise.nil
  added := fun _ hr => nomatch hr
  on_time := fun _ hd => nomatch hd
  filed := Filed.create start
  idle := fun _ => rfl
  busy := fun h => nomatch h

/-- What waits expires in a tick to come. -/
lemma waiting_ahead (k : s.Keeps start) {r : Request} (hr : r ∈ s.waiting) :
    ∃ d, 1 ≤ d ∧ r.due = s.ticks + d ∧ s.timer.Ahead r.node d := by
  rw [Clock.waiting, List.mem_filter, decide_eq_true_iff] at hr
  obtain ⟨hadd, hlt⟩ := hr
  have htick := (k.added r hadd).1
  have hdelay := r.delay.lt
  have hexp := k.expire_eq hadd
  have htime := k.time
  refine ⟨r.due - s.ticks, by omega, by omega, ?_, ?_⟩
  · rw [Request.node_expire, hexp]
    omega
  · rw [Request.due]
    omega

lemma waiting_expire_ne (k : s.Keeps start) {r : Request} (hr : r ∈ s.waiting) :
    r.expire ≠ s.timer.time := by
  obtain ⟨d, hpos, -, hexp, hlt⟩ := k.waiting_ahead hr
  rw [Request.node_expire] at hexp
  have := k.time
  omega

/-- A call of `timer_add`. -/
lemma add (k : s.Keeps start) {delay : Delay} {event : TimerEvent}
    (hstep : s.step (.add delay event) = some s') : s'.Keeps start := by
  cases hstep
  have hpos := delay.pos
  have htime : (timerAdd s.timer ⟨s.added.length, s.ticks, s.timer.time, delay, event⟩
      delay.time).time = s.timer.time := addNode_time ..
  have hagenda : ∀ r : Request, r.tick = s.ticks →
      agenda Request.due (s.added ++ [r]) s.ticks = agenda Request.due s.added s.ticks :=
    fun r hr => agenda_append_of_lt (by have := r.delay.pos; rw [Request.due]; omega)
  refine ⟨⟨htime.trans k.time, ?_, ?_, ?_, k.on_time⟩, ?_, ?_, ?_⟩
  · simp only [List.map_append, k.seq, List.length_append, List.map_cons, List.map_nil,
      List.length_cons, List.length_nil, List.range_succ, Nat.zero_add]
  · refine List.pairwise_append.mpr ⟨k.sorted, List.pairwise_singleton .., fun r hr r' hr' => ?_⟩
    obtain rfl := List.mem_singleton.mp hr'
    have hseq : r.seq ∈ s.added.map (·.seq) := List.mem_map_of_mem hr
    rw [k.seq, List.mem_range] at hseq
    exact ⟨hseq, (k.added r hr).1⟩
  · intro r hr
    rcases List.mem_append.mp hr with hr | hr
    · exact k.added r hr
    · obtain rfl := List.mem_singleton.mp hr
      exact ⟨le_rfl, k.time⟩
  · have hwait : Clock.waiting { s with
        timer := timerAdd s.timer ⟨s.added.length, s.ticks, s.timer.time, delay, event⟩ delay.time
        added := s.added ++ [⟨s.added.length, s.ticks, s.timer.time, delay, event⟩] } =
        s.waiting ++ [⟨s.added.length, s.ticks, s.timer.time, delay, event⟩] := by
      have hlater : s.ticks < s.ticks + delay.time := by omega
      simp only [Clock.waiting, Request.due, List.filter_append, List.filter_singleton, hlater,
        decide_true, Bool.cond_true]
    rw [hwait, List.map_append, List.map_singleton]
    have hnode := k.filed.add ⟨s.added.length, s.ticks, s.timer.time, delay, event⟩ delay.time
    rwa [Nat.add_comm delay.time] at hnode
  · exact fun h => (k.idle h).trans (hagenda _ rfl).symm
  · intro shifted current h
    obtain ⟨hs, hserved, hcur⟩ := k.busy h
    exact ⟨hs, hserved.trans (hagenda _ rfl).symm, fun x hx =>
      ⟨(hcur x hx).1, (hcur x hx).2.1, (hcur x hx).2.2.trans htime.symm⟩⟩

/-- Outside a tick the wheel holds nothing that expires now. -/
lemma timerExecute_none (k : s.Keeps start) : timerExecute s.timer = none := by
  refine k.filed.execute_none.mpr fun x hx => ?_
  obtain ⟨r, hr, rfl⟩ := List.mem_map.mp hx
  exact k.waiting_expire_ne hr

/-- The end of `timer_update`: nothing more expires now. -/
lemma finish (k : s.Keeps start) (hphase : s.phase = .dispatching true []) :
    Clock.Keeps start s.executeShifted ∧ s.executeShifted.phase = .idle ∧
      s.executeShifted.ticks = s.ticks := by
  rw [Clock.executeShifted, k.timerExecute_none]
  obtain ⟨-, hserved, -⟩ := k.busy hphase
  rw [List.map_nil, List.append_nil] at hserved
  exact ⟨⟨⟨k.time, k.seq, k.sorted, k.added, k.on_time⟩, k.filed, fun _ => hserved,
    fun h => nomatch h⟩, rfl, rfl⟩

/-- A tick: the first `timer_execute` finds nothing, and after the shift the second takes what is
due in the new tick. -/
lemma update (k : s.Keeps start) (hphase : s.phase = .idle) :
    s.execute.Keeps start ∧ s.execute.ticks = s.ticks + 1 := by
  have hagenda : agenda Request.due s.added (s.ticks + 1) =
      s.served ++ dueOn Request.due s.added (s.ticks + 1) := by
    rw [agenda_succ, k.idle hphase]
  have hlt : s.timer.time < 2 ^ 32 := by
    rw [k.time]
    exact Nat.mod_lt _ (by decide)
  have hfiled : Filed (timerShift s.timer) (s.waiting.map Request.node) := by
    refine k.filed.shift hlt fun x hx => ?_
    obtain ⟨r, hr, rfl⟩ := List.mem_map.mp hx
    obtain ⟨d, hpos, -, hahead⟩ := k.waiting_ahead hr
    exact ⟨d, hpos, hahead⟩
  have htime : (timerShift s.timer).time = (start + (s.ticks + 1)) % 2 ^ 32 := by
    have := k.time
    rw [timerShift_time]
    omega
  -- of the waiting requests, those due in the new tick expire now
  have hnow : ∀ r ∈ s.waiting, r.expire = (timerShift s.timer).time ↔ r.due = s.ticks + 1 := by
    intro r hr
    obtain ⟨d, hpos, hdue, hexp, hd⟩ := k.waiting_ahead hr
    rw [Request.node_expire] at hexp
    have := k.time
    omega
  have hdue : s.waiting.filter (fun r => r.expire = (timerShift s.timer).time) =
      dueOn Request.due s.added (s.ticks + 1) := by
    have hcongr : s.waiting.filter (fun r => r.expire = (timerShift s.timer).time) =
        s.waiting.filter fun r => r.due = s.ticks + 1 :=
      List.filter_congr fun r hr => decide_eq_decide.mpr (hnow r hr)
    rw [hcongr, Clock.waiting, List.filter_filter, dueOn]
    refine List.filter_congr fun r _ => ?_
    by_cases h : r.due = s.ticks + 1
    · simp [h]
    · simp [h]
  have hlater : s.waiting.filter (fun r => r.expire ≠ (timerShift s.timer).time) =
      s.added.filter fun r => s.ticks + 1 < r.due := by
    have hcongr : s.waiting.filter (fun r => r.expire ≠ (timerShift s.timer).time) =
        s.waiting.filter fun r => r.due ≠ s.ticks + 1 :=
      List.filter_congr fun r hr => decide_eq_decide.mpr (not_congr (hnow r hr))
    rw [hcongr, Clock.waiting, List.filter_filter]
    refine List.filter_congr fun r _ => ?_
    rw [← Bool.decide_and, decide_eq_decide]
    omega
  have hrec : Clock.Recorded start
      { s with timer := timerShift s.timer, ticks := s.ticks + 1 } :=
    ⟨htime, k.seq, k.sorted, fun r hr => ⟨Nat.le_succ_of_le (k.added r hr).1, (k.added r hr).2⟩,
      k.on_time⟩
  rw [Clock.execute, k.timerExecute_none]
  simp only [Clock.executeShifted]
  cases hexec : timerExecute (timerShift s.timer) with
  | none =>
    have hnone : ∀ r ∈ s.waiting, r.expire ≠ (timerShift s.timer).time :=
      fun r hr => hfiled.execute_none.mp hexec r.node (List.mem_map_of_mem hr)
    rw [List.filter_eq_nil_iff.mpr (by simpa using hnone)] at hdue
    rw [List.filter_eq_self.mpr (by simpa using hnone)] at hlater
    refine ⟨⟨⟨hrec.time, hrec.seq, hrec.sorted, hrec.added, hrec.on_time⟩, ?_, fun _ => ?_,
      by simp⟩, rfl⟩
    · rw [hlater] at hfiled
      exact hfiled
    · rw [hagenda, ← hdue, List.append_nil]
      rfl
  | some r =>
    obtain ⟨current, T⟩ := r
    obtain ⟨hcur, hT, hfiled'⟩ := hfiled.execute_some hexec
    replace hcur : current = (dueOn Request.due s.added (s.ticks + 1)).map Request.node := by
      rw [hcur, List.filter_map, ← hdue]
      rfl
    replace hfiled' : Filed T ((s.added.filter fun r => s.ticks + 1 < r.due).map Request.node) := by
      rw [← hlater]
      rw [List.filter_map] at hfiled'
      exact hfiled'
    refine ⟨⟨⟨hT.trans hrec.time, hrec.seq, hrec.sorted, hrec.added, hrec.on_time⟩, hfiled',
      by simp, ?_⟩, rfl⟩
    rintro shifted current' ⟨⟩
    refine ⟨rfl, ?_, fun x hx => ?_⟩
    · simp only [hcur, List.map_map, Function.comp_def, Request.node_arg, List.map_id']
      exact hagenda.symm
    · rw [hcur] at hx
      obtain ⟨r, hr, rfl⟩ := List.mem_map.mp hx
      rw [← hdue, List.mem_filter, decide_eq_true_iff] at hr
      exact ⟨(hnow r hr.1).mp hr.2, rfl, hr.2.trans hT.symm⟩

/-- The next step of `timer_update`. -/
lemma proceed (k : s.Keeps start) (hstep : s.step .proceed = some s') :
    s'.Keeps start ∧ s'.ticks = s.ticks := by
  cases hphase : s.phase with
  | idle =>
    rw [Clock.step, hphase] at hstep
    cases hstep
  | dispatching shifted current =>
    obtain ⟨rfl, hserved, hcur⟩ := k.busy hphase
    cases current with
    | nil =>
      rw [Clock.step, hphase] at hstep
      cases hstep
      obtain ⟨k', -, hticks⟩ := k.finish hphase
      exact ⟨k', hticks⟩
    | cons node rest =>
      rw [Clock.step, hphase] at hstep
      cases hstep
      obtain ⟨hdue, hexp, hnow⟩ := hcur node (List.mem_cons_self ..)
      refine ⟨⟨⟨k.time, k.seq, k.sorted, k.added, ?_⟩, k.filed, fun h => (nomatch h), ?_⟩, rfl⟩
      · intro d hd
        rcases List.mem_append.mp hd with hd | hd
        · exact k.on_time d hd
        · obtain rfl := List.mem_singleton.mp hd
          exact ⟨hdue.symm, hnow.symm.trans hexp⟩
      · rintro shifted current' ⟨⟩
        refine ⟨rfl, ?_, fun x hx => hcur x (List.mem_cons_of_mem _ hx)⟩
        rw [← hserved]
        simp [Clock.served]

/-- What one step preserves. -/
lemma step (k : s.Keeps start) {a : Action} (hstep : s.step a = some s') : s'.Keeps start := by
  cases a with
  | add delay event => exact k.add hstep
  | update =>
    rw [Clock.step] at hstep
    split at hstep
    · rename_i hphase
      cases hstep
      exact (k.update hphase).1
    · cases hstep
  | proceed => exact (k.proceed hstep).1

/-- `timer_update` comes to its end by itself, within the same tick. -/
lemma finishes : ∀ n {s : Clock} {shifted current}, s.Keeps start →
    s.phase = .dispatching shifted current → current.length = n →
    ∃ s', run Clock.step s (List.replicate (n + 1) .proceed) = some s' ∧ s'.phase = .idle ∧
      s'.ticks = s.ticks
  | 0, s, shifted, current, k, hphase, hn => by
    obtain rfl := List.length_eq_zero_iff.mp hn
    obtain rfl := (k.busy hphase).1
    obtain ⟨-, hidle, hticks⟩ := k.finish hphase
    exact ⟨s.executeShifted, by simp [run, Clock.step, hphase], hidle, hticks⟩
  | n + 1, s, shifted, current, k, hphase, hn => by
    obtain ⟨node, rest, rfl⟩ := List.exists_cons_of_length_eq_add_one hn
    have hstep : s.step .proceed = some { s with
        phase := .dispatching shifted rest
        dispatched := s.dispatched ++ [⟨node.arg, s.ticks, s.timer.time⟩] } := by
      rw [Clock.step, hphase]
    obtain ⟨s', hrun, hidle, hticks⟩ :=
      finishes n (k.proceed hstep).1 rfl (Nat.succ.inj hn)
    exact ⟨s', by rw [List.replicate_succ, run_cons_of_eq_some hstep, hrun], hidle, hticks⟩

/-- What has been dispatched begins the agenda. -/
lemma served_prefix (k : s.Keeps start) : s.served <+: agenda Request.due s.added s.ticks := by
  cases hphase : s.phase with
  | idle => rw [k.idle hphase]
  | dispatching shifted current => exact ⟨_, (k.busy hphase).2.1⟩

/-- Of two requests that expire at the same value of the counter, the one due first was made
first: it cannot wait for a whole turn of the counter. -/
lemma seq_lt_of_due_lt (k : s.Keeps start) {r r' : Request} (hr : r ∈ s.added)
    (hr' : r' ∈ s.added) (hdue : r.due < r'.due) (hexp : r.expire = r'.expire) :
    r.seq < r'.seq := by
  rw [k.expire_eq hr, k.expire_eq hr'] at hexp
  have htick : r.tick < r'.tick := by
    have hlt := r'.delay.lt
    rw [Request.due, Request.due] at hdue hexp
    omega
  obtain ⟨i, hi, rfl⟩ := List.getElem_of_mem hr
  obtain ⟨j, hj, rfl⟩ := List.getElem_of_mem hr'
  have hpair := List.pairwise_iff_getElem.mp k.sorted
  rcases Nat.lt_trichotomy i j with hij | rfl | hij
  · exact (hpair i j hi hj hij).1
  · omega
  · have := (hpair j i hj hi hij).2
    omega

end Clock.Keeps

/-! ## The wheel as a sorted queue -/

/-- The wheel has worked as a queue sorted by expiry. -/
structure Clock.Punctual (s : Clock) : Prop where
  /-- the calls of `timer_add` are numbered, so that equal requests are the same call -/
  numbered : s.added.map (·.seq) = List.range s.added.length
  /-- no event is dispatched twice -/
  once : s.served.Nodup
  /-- an event is dispatched in its tick, when the counter is its expiry … -/
  on_time : ∀ d ∈ s.dispatched, d.request ∈ s.added ∧ d.tick = d.request.due ∧
    d.now = (d.request.now + d.request.delay.time) % 2 ^ 32
  /-- … and when `timer_update` is over, no event of this or an earlier tick is left -/
  complete : s.phase = .idle → ∀ r ∈ s.added, r.due ≤ s.ticks → r ∈ s.served
  /-- `timer_update` comes to its end by itself -/
  finishes : ∃ n s', run Clock.step s (List.replicate n .proceed) = some s' ∧ s'.phase = .idle ∧
    s'.ticks = s.ticks
  /-- the order of dispatch is that of the ticks, and within a tick that of the calls -/
  sorted : s.served.Pairwise fun r r' => r.due < r'.due ∨ r.due = r'.due ∧ r.seq < r'.seq
  /-- events of equal expiry are dispatched in the order of the calls -/
  fifo : s.served.Pairwise fun r r' => r.expire = r'.expire → r.seq < r'.seq

lemma Clock.Keeps.punctual {start : ℕ} {s : Clock} (k : s.Keeps start) : s.Punctual := by
  have hmem : ∀ r ∈ s.served, r ∈ s.added :=
    fun r hr => (mem_agenda.mp (k.served_prefix.subset hr)).1
  have hsorted : s.served.Pairwise
      fun r r' => r.due < r'.due ∨ r.due = r'.due ∧ r.seq < r'.seq :=
    (agenda_pairwise (k.sorted.imp fun h => h.1)).sublist k.served_prefix.sublist
  refine ⟨k.seq, ?_, fun d hd => ⟨hmem _ (List.mem_map_of_mem hd), k.on_time d hd⟩, ?_, ?_, hsorted,
    ?_⟩
  · refine hsorted.imp ?_
    rintro r r' h rfl
    omega
  · intro hphase r hr hdue
    rw [k.idle hphase, mem_agenda]
    exact ⟨hr, hdue⟩
  · cases hphase : s.phase with
    | idle => exact ⟨0, s, rfl, hphase, rfl⟩
    | dispatching shifted current =>
      obtain ⟨s', h⟩ := finishes _ k hphase rfl
      exact ⟨_, s', h⟩
  · refine hsorted.imp_of_mem fun {r r'} hr hr' h hexp => ?_
    rcases h with hdue | ⟨-, hseq⟩
    · exact k.seq_lt_of_due_lt (hmem r hr) (hmem r' hr') hdue hexp
    · exact hseq

/-- **The timing wheel is a queue sorted by expiry**, from every value of the counter and over
every interleaving of `timer_add` with the steps of the timer thread: each event is dispatched
exactly once, in the very tick whose counter is its expiry, and events of equal expiry in the
order of the calls. -/
theorem wheel_is_sorted_queue (start : ℕ) (hstart : start < 2 ^ 32) (as : List Action) (s : Clock)
    (hrun : run Clock.step (Clock.init start) as = some s) : s.Punctual :=
  (run_invariant_of_step (fun _ _ _ k hstep => k.step hstep) (Clock.Keeps.init hstart)
    hrun).punctual

/-- Two events of equal expiry and a later one, over the wrap of the counter. -/
theorem wheel_is_sorted_queue_wrap :
    ∃ s, run Clock.step (Clock.init (2 ^ 32 - 1))
        [.add ⟨2, by decide, by decide⟩ ⟨1, 7⟩, .update, .add ⟨1, by decide, by decide⟩ ⟨2, 8⟩,
          .update, .proceed, .add ⟨300, by decide, by decide⟩ ⟨3, 9⟩, .proceed, .proceed] =
        some s ∧ s.served.map (·.event.session) = [7, 8] ∧ s.Punctual := by
  obtain ⟨s, hs, hserved⟩ : ∃ s, run Clock.step (Clock.init (2 ^ 32 - 1))
      [.add ⟨2, by decide, by decide⟩ ⟨1, 7⟩, .update, .add ⟨1, by decide, by decide⟩ ⟨2, 8⟩,
        .update, .proceed, .add ⟨300, by decide, by decide⟩ ⟨3, 9⟩, .proceed, .proceed] =
      some s ∧ s.served.map (·.event.session) = [7, 8] := ⟨_, rfl, rfl⟩
  exact ⟨s, hs, hserved, wheel_is_sorted_queue _ (by decide) _ s hs⟩

end SkynetEureka.TimerWheel
