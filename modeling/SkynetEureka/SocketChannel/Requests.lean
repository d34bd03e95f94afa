import SkynetEureka.SocketChannel.Connections

/-!
# Answers and requests

Each step keeps `Inv` as long as nobody is left in the queues when the dispatch coroutine comes to
the test of its loop and the socket has been closed. Callers that are left there are on the next
connection when it has begun, and get the answers of others.
-/

namespace SkynetEureka.SocketChannel

open Lib Function

variable {D : Type} {s s' : State D} {k co conn : ℕ} {q : List (Option (Caller D))}
  {cur : List (Caller D)} {phase : Option (Phase D)}

/-- The step of the dispatch coroutine comes to the test of its loop: the coroutine starts, or
`get_response` returns. -/
def Phase.ends (unread : List UInt8) : Phase D → Bool
  | .start => true
  | .called _ func _ => (func.run unread).elim false fun reply => !(reply.ok && reply.padding)
  | _ => false

/-- When the dispatch coroutine comes to the test of its loop and the socket has been closed,
nothing is left in the queues, unless a request that has failed is going to wake all. -/
def Held (s : State D) : Action D → Prop
  | .dispatch => ∀ d ∈ s.dispatchThread, d.phase.ends (s.unread d.conn) → s.sock = none →
      s.thread = [] ∨ s.failing ≠ []
  | .respond => ∀ d ∈ s.dispatchThread, d.phase.ends (s.unread d.conn) → s.sock = none →
      s.thread = [] ∨ s.failing ≠ []
  | _ => True

instance (s : State D) : (a : Action D) → Decidable (Held s a)
  | .dispatch | .respond =>
    inferInstanceAs (Decidable (∀ d ∈ s.dispatchThread, d.phase.ends (s.unread d.conn) →
      s.sock = none → s.thread = [] ∨ s.failing ≠ []))
  | .call .. | .resume .. | .opened _ | .yielded | .authed _ | .authClosed | .slept | .failed _
  | .woken _ | .raise _ | .raised | .data .. | .close | .changehost =>
    inferInstanceAs (Decidable True)

/-- The caller that the dispatch coroutine serves -/
def Phase.caller : Phase D → Option ℕ
  | .called co _ _ => some co
  | .closing co _ => some co
  | _ => none

/-- A caller that has been woken has its result: an error of its connection, or what it has been
served there as the caller that it is. -/
def Woken (s : State D) (co : ℕ) (w : Wait D) : Prop :=
  w.woken = 1 ∧ ∃ o ∈ w.outcome, s.result co = some o.result ∧ s.resultData co = o.data ∧
    o.conn = w.conn ∧ (o.result = .socketError ∨
      ∃ entry, (s.served w.conn)[w.caller.index]? = some entry ∧ entry.caller = w.caller ∧
        o.result = .answer entry.ok ∧ o.data = some entry.value)

/-- A caller that has not been woken is being served on its connection, or is in the queues while
the dispatch coroutine of its connection is awake, or a request that has failed is going to wake
all. -/
def Asleep (s : State D) (co : ℕ) (w : Wait D) : Prop :=
  w.woken = 0 ∧ s.result co = none ∧ s.resultData co = none ∧
    ((some co ∈ s.thread ∧ s.failing ≠ []) ∨ ∃ d ∈ s.dispatchThread, d.conn = w.conn ∧
      (d.phase.caller = some co ∨
        some co ∈ s.thread ∧ (d.phase = .waiting → s.waitResponse = false)))

/-- What a channel promises -/
structure Matched (s : State D) : Prop where
  lengths : s.request.length = s.thread.length
  results : ∀ co, s.result co ≠ none ∨ s.resultData co ≠ none → ∃ w ∈ s.waits co, Woken s co w
  callers : ∀ co, ∀ w ∈ s.waits co, Asleep s co w ∨ Woken s co w
  order : ∀ k, (s.served k).map Served.caller <+: s.joined k
  chain : ∀ k, Chain (s.received k) (s.served k)

/-! ## Each step -/

theorem Inv.init (auth : Bool) : Inv (State.init (D := D) auth) := by
  refine ⟨0, [], [], none, rfl, rfl, rfl, ⟨?_, List.nodup_nil, ?_, fun _ _ => ⟨rfl, rfl⟩, ?_⟩,
    ⟨fun _ => List.nil_prefix, ?_, fun _ => trivial, fun _ _ => ⟨rfl, rfl⟩⟩, ?_,
    fun _ => ⟨rfl, rfl, .inl rfl⟩, ?_, ?_, fun hne => (hne rfl).elim, ?_, ?_, ?_⟩
  · intro x hx
    cases hx
  · intro co w hw
    cases hw
  · intro co w hw
    cases hw
  · intro k i x hx
    cases hx
  · intro p hp
    cases hp
  · intro k' hk'
    cases hk'
  · intro x hx
    cases hx
  · intro hp
    cases hp
  · intro c hc
    cases hc
  · intro c hc
    cases hc

/-- More bytes come in. -/
theorem Inv.data {bytes : List UInt8} (h : Inv s) :
    Inv { s with received := update s.received conn (s.received conn ++ bytes) } := by
  obtain ⟨k, q, cur, phase, hdispatch, h⟩ := h
  have hreceived : ∀ k', ∃ more, update s.received conn (s.received conn ++ bytes) k' =
      s.received k' ++ more := by
    intro k'
    by_cases hk' : k' = conn
    · exact ⟨bytes, by rw [hk', update_self]⟩
    · exact ⟨[], by rw [update_of_ne hk', List.append_nil]⟩
  refine ⟨k, q, cur, phase, hdispatch, h.request, h.thread, h.core.congr rfl rfl rfl rfl,
    ⟨h.order.served, h.order.numbered, ?_, h.order.fresh⟩, ?_, h.ended, h.sock, h.failing, h.shut,
    h.woken, h.opening, h.awaiting⟩
  · intro k'
    obtain ⟨more, hmore⟩ := hreceived k'
    dsimp only
    rw [hmore]
    exact (h.order.chain k').extend
  · intro p hp
    obtain ⟨hlt, hcurrent, hjoined⟩ := h.running p hp
    refine ⟨hlt, ?_, hjoined⟩
    cases p with
    | called co func parts =>
      obtain ⟨hcur, n, hconsumed, hgets⟩ := hcurrent
      obtain ⟨more, hmore⟩ := hreceived k
      refine ⟨hcur, n, hconsumed, ?_⟩
      dsimp only
      rw [hmore, List.drop_append_of_le_length (h.order.chain k).le]
      exact hgets.extend
    | _ => exact hcurrent

theorem Inv.call {call : Call D} {disconnected written : Bool} (h : Inv s)
    (hstep : s.step (.call co call disconnected written) = some s') : Inv s' := by
  unfold State.step at hstep
  obtain ⟨hfree, heq⟩ := Option.ite_none_right_eq_some.mp hstep
  have hidle : s.waits co = none := Option.isNone_iff_eq_none.mp hfree.1
  cases heq
  cases call with
  | connect once =>
    have h' : Inv { s with closed := false } := h.same (by constructor <;> rfl) rfl rfl
    exact h'.blockConnect hidle
  | request response => exact h.blockConnect hidle
  | response response => exact h.blockConnect hidle

theorem Inv.resume {disconnected written : Bool} (h : Inv s)
    (hstep : s.step (.resume disconnected written) = some s') : Inv s' := by
  unfold State.step at hstep
  dsimp only at hstep
  split at hstep
  · cases hstep
  · rename_i co call ready hready
    obtain ⟨hidle, heq⟩ := Option.ite_none_right_eq_some.mp hstep
    cases heq
    have h' : Inv { s with ready := ready } := h.same (by constructor <;> rfl) rfl rfl
    refine Inv.goOn _ h'.checkConnection ?_
    rw [checkConnection_waits]
    exact Option.isNone_iff_eq_none.mp hidle

/-- A step of the coroutine that connects -/
theorem Inv.opened {ok : Bool} (h : Inv s) (hstep : s.step (.opened ok) = some s') : Inv s' := by
  unfold State.step at hstep
  obtain ⟨c, hc, hstep⟩ := Option.bind_eq_some_iff.mp hstep
  obtain ⟨hphase, hstep⟩ := Option.ite_none_right_eq_some.mp hstep
  split at hstep
  · cases hstep
    exact h.retry
  · obtain ⟨hfailing, heq⟩ := Option.ite_none_right_eq_some.mp hstep
    cases heq
    obtain ⟨k, q, cur, phase, -, hat⟩ := id h
    exact h.establish (hat.opening c hc (.inl hphase)) hfailing

theorem Inv.yielded (h : Inv s) (hstep : s.step .yielded = some s') : Inv s' := by
  unfold State.step at hstep
  obtain ⟨c, hc, hstep⟩ := Option.bind_eq_some_iff.mp hstep
  obtain ⟨hphase, heq⟩ := Option.ite_none_right_eq_some.mp hstep
  cases heq
  obtain ⟨k, q, cur, phase, -, hat⟩ := id h
  exact h.establish (hat.opening c hc (.inr hphase)) (hat.awaiting c hc hphase)

theorem Inv.authed {ok : Bool} (h : Inv s) (hstep : s.step (.authed ok) = some s') : Inv s' := by
  unfold State.step at hstep
  obtain ⟨c, hc, hstep⟩ := Option.bind_eq_some_iff.mp hstep
  obtain ⟨-, hstep⟩ := Option.ite_none_right_eq_some.mp hstep
  split at hstep
  · cases hstep
    refine h.close.settled (by constructor <;> rfl) rfl ?_
    intro c' hc'
    cases hc'
    exact ⟨nofun, nofun⟩
  · have h' : Inv { s with authcoroutine := none } := h.same (by constructor <;> rfl) rfl rfl
    dsimp only at hstep
    split at hstep
    · cases hstep
      exact h'.connectOnce_getD
    · cases hstep
      exact h'.connected

theorem Inv.authClosed (h : Inv s) (hstep : s.step .authClosed = some s') : Inv s' := by
  unfold State.step at hstep
  obtain ⟨c, hc, hstep⟩ := Option.bind_eq_some_iff.mp hstep
  obtain ⟨-, heq⟩ := Option.ite_none_right_eq_some.mp hstep
  cases heq
  have h' : Inv { s with authcoroutine := none } := h.same (by constructor <;> rfl) rfl rfl
  exact h'.retry

theorem Inv.slept (h : Inv s) (hstep : s.step .slept = some s') : Inv s' := by
  unfold State.step at hstep
  obtain ⟨c, hc, hstep⟩ := Option.bind_eq_some_iff.mp hstep
  obtain ⟨-, heq⟩ := Option.ite_none_right_eq_some.mp hstep
  cases heq
  exact h.tryConnect

/-- A request whose write has failed wakes all. -/
theorem Inv.failedAll {i : ℕ} (h : Inv s) (hstep : s.step (.failed i) = some s') : Inv s' := by
  unfold State.step at hstep
  obtain ⟨x, hx, heq⟩ := Option.bind_eq_some_iff.mp hstep
  cases heq
  obtain ⟨k, q, cur, phase, hdispatch, h⟩ := h
  have hmem : x ∈ s.failing := List.mem_of_getElem? hx
  have hk : x.2 = k := h.failing x hmem
  have hsock : s.sock = none := h.shut (List.ne_nil_of_mem hmem)
  rw [hk]
  refine ⟨k, [], cur, phase, ?_, h.wakeupAll hsock fun y hy => List.mem_of_mem_eraseIdx hy⟩
  obtain ⟨result, resultData, waits, heq⟩ := wakeupThread_eq k none s.thread
    { s with failing := s.failing.eraseIdx i, request := [], thread := [] }
  unfold State.wakeupAll
  dsimp only at heq ⊢
  rw [heq]
  exact hdispatch

theorem Inv.woken (h : Inv s) (hstep : s.step (.woken co) = some s') : Inv s' := by
  unfold State.step at hstep
  obtain ⟨w, hw, hstep⟩ := Option.bind_eq_some_iff.mp hstep
  obtain ⟨hwoken, heq⟩ := Option.ite_none_left_eq_some.mp hstep
  cases heq
  obtain ⟨k, q, cur, phase, hdispatch, h⟩ := h
  refine ⟨k, q, cur, phase, hdispatch, h.request, h.thread, h.core.leave hw hwoken,
    h.order.congr rfl rfl rfl rfl rfl, ?_, h.ended, h.sock, h.failing, h.shut, h.woken, h.opening,
    h.awaiting⟩
  intro p hp
  obtain ⟨hlt, hcurrent, hjoined⟩ := h.running p hp
  exact ⟨hlt, hcurrent.congr rfl rfl rfl rfl, hjoined⟩

/-- A dispatch coroutine that is there is at its phase. -/
theorem Inv.dispatching {d : Dispatch D} (h : Inv s) (hd : s.dispatchThread = some d) :
    ∃ q cur, At s d.conn q cur (some d.phase) := by
  obtain ⟨k, q, cur, phase, hdispatch, h⟩ := h
  rw [hd] at hdispatch
  cases phase with
  | none => cases hdispatch
  | some p =>
    cases hdispatch
    exact ⟨q, cur, h⟩

theorem At.left (h : At s k q cur phase) (hthread : s.thread = [] ∨ s.failing ≠ []) :
    q = [] ∨ s.failing ≠ [] := by
  refine hthread.imp_left fun hnil => ?_
  rw [h.thread] at hnil
  exact List.map_eq_nil_iff.mp hnil

theorem Inv.dispatch (h : Inv s) (hheld : Held s .dispatch)
    (hstep : s.step .dispatch = some s') : Inv s' := by
  unfold State.step at hstep
  obtain ⟨d, hd, hstep⟩ := Option.bind_eq_some_iff.mp hstep
  obtain ⟨q, cur, hat⟩ := h.dispatching hd
  have hends := hheld d hd
  split at hstep
  · rename_i hphase
    cases hstep
    rw [hphase] at hat hends
    obtain ⟨-, ⟨rfl, hconsumed⟩, -⟩ := hat.running _ rfl
    exact hat.dispatchLoop hconsumed fun hsock => hat.left (hends rfl hsock)
  · rename_i hphase
    obtain ⟨-, heq⟩ := Option.ite_none_left_eq_some.mp hstep
    cases heq
    rw [hphase] at hat
    obtain ⟨-, ⟨rfl, hconsumed⟩, -⟩ := hat.running _ rfl
    exact hat.popResponse hconsumed
  · cases hstep

theorem Inv.respond (h : Inv s) (hheld : Held s .respond)
    (hstep : s.step .respond = some s') : Inv s' := by
  unfold State.step at hstep
  obtain ⟨d, hd, hstep⟩ := Option.bind_eq_some_iff.mp hstep
  obtain ⟨q, cur, hat⟩ := h.dispatching hd
  have hends := hheld d hd
  split at hstep
  · rename_i co func parts hphase
    obtain ⟨reply, hrun, heq⟩ := Option.bind_eq_some_iff.mp hstep
    cases heq
    rw [hphase] at hat hends
    refine hat.respond hrun fun hlast hsock => hat.left (hends ?_ hsock)
    unfold Phase.ends
    dsimp only
    rw [hrun]
    simpa [imp_iff_not_or] using hlast
  · cases hstep

theorem Inv.raise {errmsg : Option String} (h : Inv s)
    (hstep : s.step (.raise errmsg) = some s') : Inv s' := by
  unfold State.step at hstep
  obtain ⟨d, hd, hstep⟩ := Option.bind_eq_some_iff.mp hstep
  obtain ⟨q, cur, hat⟩ := h.dispatching hd
  split at hstep
  · rename_i co func parts hphase
    cases hstep
    rw [hphase] at hat
    exact hat.raise
  · cases hstep

theorem Inv.raised (h : Inv s) (hstep : s.step .raised = some s') : Inv s' := by
  unfold State.step at hstep
  obtain ⟨d, hd, hstep⟩ := Option.bind_eq_some_iff.mp hstep
  obtain ⟨q, cur, hat⟩ := h.dispatching hd
  split at hstep
  · rename_i co errmsg hphase
    cases hstep
    rw [hphase] at hat
    exact hat.fail
  · cases hstep

theorem termDispatchThread_close : ({ s with sock := none } : State D).termDispatchThread =
    { s.termDispatchThread with sock := none } := by
  unfold State.termDispatchThread
  dsimp only
  split <;> rfl

/-- `channel:close` -/
theorem Inv.closed (h : Inv s) (hstep : s.step .close = some s') : Inv s' := by
  unfold State.step at hstep
  cases hstep
  split
  · exact h
  · have hterm := h.close.term rfl
    rw [termDispatchThread_close] at hterm
    exact hterm.same (by constructor <;> rfl) rfl rfl

theorem Inv.step {a : Action D} (h : Inv s) (hheld : Held s a) (hstep : s.step a = some s') :
    Inv s' := by
  cases a with
  | call co call disconnected written => exact h.call hstep
  | resume disconnected written => exact h.resume hstep
  | opened ok => exact h.opened hstep
  | yielded => exact h.yielded hstep
  | authed ok => exact h.authed hstep
  | authClosed => exact h.authClosed hstep
  | slept => exact h.slept hstep
  | failed i => exact h.failedAll hstep
  | woken co => exact h.woken hstep
  | dispatch => exact h.dispatch hheld hstep
  | respond => exact h.respond hheld hstep
  | raise errmsg => exact h.raise hstep
  | raised => exact h.raised hstep
  | data conn bytes =>
    obtain ⟨-, heq⟩ := Option.ite_none_right_eq_some.mp hstep
    cases heq
    exact h.data
  | close => exact h.closed hstep
  | changehost =>
    unfold State.step at hstep
    cases hstep
    split
    · exact h
    · exact h.close

/-! ## The channel -/

theorem At.asleep {w : Wait D} (h : At s k q cur phase)
    (hdispatch : s.dispatchThread = phase.map (Dispatch.mk k)) (hw : s.waits co = some w)
    (hnone : w.outcome = none) : Asleep s co w := by
  have hok := h.core.ok co w hw
  have hmem := h.core.waiting co w hw hnone
  have hconn : k = w.conn := by
    have hpending := h.core.pending w.caller hmem
    rw [hok.own, hw] at hpending
    exact (congrArg Wait.conn (Option.some.inj hpending)).symm
  have hqueue : w.caller ∈ callers q → q ≠ [] ∧ some co ∈ s.thread := by
    intro hq
    obtain ⟨x, hx, hid⟩ := List.mem_filterMap.mp hq
    refine ⟨List.ne_nil_of_mem hx, ?_⟩
    rw [h.thread, ← hok.own]
    have hx : some w.caller ∈ q := hid ▸ hx
    exact List.mem_map_of_mem hx
  obtain ⟨hwoken, hresult, hdata⟩ := hok.asleep hnone
  refine ⟨hwoken, hresult, hdata, ?_⟩
  cases phase with
  | none =>
    obtain ⟨-, rfl, hleft⟩ := h.ended rfl
    obtain ⟨hne, hthread⟩ := hqueue hmem
    exact .inl ⟨hthread, hleft.resolve_left hne⟩
  | some p =>
    refine .inr ⟨⟨k, p⟩, hdispatch, hconn, ?_⟩
    rcases List.mem_append.mp hmem with hcur | hq
    · left
      obtain ⟨-, hcurrent, -⟩ := h.running p rfl
      cases p with
      | called co' func parts =>
        obtain ⟨⟨i, rfl⟩, -⟩ := hcurrent
        have hown := hok.own
        rw [List.mem_singleton.mp hcur] at hown
        exact congrArg some hown
      | closing co' errmsg =>
        obtain ⟨-, x, rfl, rfl⟩ := hcurrent
        rw [← List.mem_singleton.mp hcur]
        exact congrArg some hok.own
      | _ =>
        rw [hcurrent.1] at hcur
        cases hcur
    · right
      obtain ⟨hne, hthread⟩ := hqueue hq
      refine ⟨hthread, fun hwaiting => h.woken ?_ hne⟩
      exact congrArg some hwaiting

theorem At.hasWoken {w : Wait D} {o : Outcome D} (h : At s k q cur phase)
    (hw : s.waits co = some w) (ho : w.outcome = some o) : Woken s co w := by
  obtain ⟨hwoken, hresult, hdata, hconn, hserved⟩ := (h.core.ok co w hw).awake o ho
  refine ⟨hwoken, o, ho, hresult, hdata, hconn, hserved.imp_right ?_⟩
  intro ⟨entry, hmem, hcaller, hanswer⟩
  obtain ⟨i, hi⟩ := List.getElem?_of_mem hmem
  obtain ⟨rest, heq⟩ := h.order.served w.conn
  have hlt : i < ((s.served w.conn).map Served.caller).length := by
    rw [List.length_map]
    exact (List.getElem?_eq_some_iff.mp hi).1
  have hjoined : (s.joined w.conn)[i]? = some entry.caller := by
    rw [← heq, List.getElem?_append_left hlt, List.getElem?_map, hi]
    rfl
  have hindex := h.order.numbered w.conn i entry.caller hjoined
  refine ⟨entry, ?_, hcaller, hanswer⟩
  rw [← hcaller, hindex]
  exact hi

theorem Inv.matched (h : Inv s) : Matched s := by
  obtain ⟨k, q, cur, phase, hdispatch, h⟩ := h
  have hcallers : ∀ co, ∀ w ∈ s.waits co, Asleep s co w ∨ Woken s co w := by
    intro co w hw
    cases ho : w.outcome with
    | none => exact .inl (h.asleep hdispatch hw ho)
    | some o => exact .inr (h.hasWoken hw ho)
  refine ⟨?_, ?_, hcallers, h.order.served, h.order.chain⟩
  · rw [h.request, h.thread, List.length_map, List.length_map]
  · intro co hne
    cases hw : s.waits co with
    | none =>
      obtain ⟨hresult, hdata⟩ := h.core.idle co hw
      rcases hne with hne | hne
      · exact (hne hresult).elim
      · exact (hne hdata).elim
    | some w =>
      refine ⟨w, rfl, (hcallers co w hw).resolve_left ?_⟩
      intro hasleep
      rcases hne with hne | hne
      · exact hne hasleep.2.1
      · exact hne hasleep.2.2.1

/-- **Answers are matched to requests**, whatever the order of the calls, of the bytes and of the
errors is. -/
theorem requests_matched (auth : Bool) (as : List (Action D))
    (hheld : Guarded State.step Held (State.init auth) as)
    (hrun : run State.step (State.init auth) as = some s) : Matched s := by
  have hinv : Inv s :=
    run_invariant (fun _ _ _ h hheld hstep => h.step hheld hstep) (Inv.init auth) hheld hrun
  exact hinv.matched

/-! ## Two callers of a connection, and one that stays behind -/

/-- A response function that reads one byte -/
def readByte : Response UInt8 where
  run
    | [] => none
    | byte :: _ => some ⟨true, byte, false, 1⟩
  extend := by
    intro bytes more reply h
    cases bytes with
    | nil => cases h
    | cons byte bytes => exact h
  size_le := by
    intro bytes reply h
    cases bytes with
    | nil => cases h
    | cons byte bytes =>
      cases h
      exact Nat.succ_le_succ (Nat.zero_le _)

/-- Two requests on the first connection. The response of the first one is being waited for. -/
def twoRequests : List (Action UInt8) :=
  [.call 1 (.request (some readByte)) false true, .opened true, .resume false true,
    .call 2 (.request (some readByte)) false true, .dispatch]

/-- Both get their byte. Then the host changes, and a third one is on the second connection. -/
theorem requests_matched_twice :
    ∃ s : State UInt8, (s.waits 1).map Wait.woken = some 1 ∧
      (s.waits 3).map Wait.conn = some 1 ∧ Matched s := by
  let as : List (Action UInt8) := twoRequests ++
    [.data 0 [65], .respond, .data 0 [66], .respond, .changehost,
      .call 3 (.request (some readByte)) false true, .dispatch, .opened true, .resume false true]
  have hsome : ((run State.step (State.init false) as).map fun s =>
      ((s.waits 1).map Wait.woken, (s.waits 3).map Wait.conn)) = some (some 1, some 1) := by decide
  obtain ⟨s, hs, heq⟩ := Option.map_eq_some_iff.mp hsome
  refine ⟨s, congrArg Prod.fst heq, congrArg Prod.snd heq, ?_⟩
  exact requests_matched false as (by decide) hs

/-- The host changes while the response function of the first request runs, and then the first byte
comes in: the second caller stays in the queues, and gets the first byte of the next connection. -/
theorem request_mismatched : ∃ as : List (Action UInt8),
    ∃ s, run State.step (State.init false) as = some s ∧ ¬Matched s := by
  let as : List (Action UInt8) := twoRequests ++
    [.changehost, .data 0 [65], .respond, .call 3 (.request (some readByte)) false true,
      .opened true, .resume false true, .dispatch, .data 1 [66], .respond]
  have hsome : ((run State.step (State.init false) as).bind fun s => (s.waits 2).bind fun w =>
      w.outcome.map fun o => (w.woken, w.conn, o.conn)) = some (1, 0, 1) := by decide
  obtain ⟨s, hs, hsome⟩ := Option.bind_eq_some_iff.mp hsome
  obtain ⟨w, hw, hsome⟩ := Option.bind_eq_some_iff.mp hsome
  obtain ⟨o, ho, heq⟩ := Option.map_eq_some_iff.mp hsome
  refine ⟨as, s, hs, fun hmatched => ?_⟩
  obtain ⟨hwoken, hconn, hoconn⟩ : w.woken = 1 ∧ w.conn = 0 ∧ o.conn = 1 := by
    simpa only [Prod.mk.injEq] using heq
  rcases hmatched.callers 2 w hw with hasleep | ⟨-, o', ho', -, -, hsame, -⟩
  · rw [hasleep.1] at hwoken
    cases hwoken
  · rw [ho] at ho'
    cases ho'
    rw [hconn, hoconn] at hsame
    cases hsame

end SkynetEureka.SocketChannel
