import SkynetEureka.SocketChannel.Waking

/-!
# The dispatch coroutine

`At` from one point of the dispatch coroutine to the next. At the test of its loop the socket may
have been closed: then nobody may be left in the queues, unless a request that has failed is going
to wake them.
-/

namespace SkynetEureka.SocketChannel

open Lib Function

variable {D : Type} {s s' : State D} {k co : ℕ} {q : List (Option (Caller D))}
  {cur : List (Caller D)} {phase : Option (Phase D)} {p : Phase D} {func : Response D}

/-- The two states differ in what the invariant does not read, or in the coroutine that connects. -/
structure Same (s s' : State D) : Prop where
  sock : s'.sock = s.sock := by rfl
  request : s'.request = s.request := by rfl
  thread : s'.thread = s.thread := by rfl
  result : s'.result = s.result := by rfl
  resultData : s'.resultData = s.resultData := by rfl
  waitResponse : s'.waitResponse = s.waitResponse := by rfl
  failing : s'.failing = s.failing := by rfl
  connections : s'.connections = s.connections := by rfl
  received : s'.received = s.received := by rfl
  consumed : s'.consumed = s.consumed := by rfl
  waits : s'.waits = s.waits := by rfl
  joined : s'.joined = s.joined := by rfl
  served : s'.served = s.served := by rfl

theorem Current.congr (h : Current s k cur p) (hsock : s'.sock = s.sock)
    (hreceived : s'.received = s.received) (hconsumed : s'.consumed = s.consumed)
    (hserved : s'.served = s.served) : Current s' k cur p := by
  cases p <;> unfold Current at h ⊢ <;> dsimp only at h ⊢ <;>
    simp only [hsock, hreceived, hconsumed, hserved] <;> exact h

theorem Order.congr (h : Order s) (hconnections : s'.connections = s.connections)
    (hreceived : s'.received = s.received) (hconsumed : s'.consumed = s.consumed)
    (hjoined : s'.joined = s.joined) (hserved : s'.served = s.served) : Order s' := by
  refine ⟨?_, ?_, ?_, ?_⟩
  · rw [hserved, hjoined]
    exact h.served
  · rw [hjoined]
    exact h.numbered
  · rw [hreceived, hserved]
    exact h.chain
  · rw [hconnections, hjoined, hconsumed]
    exact h.fresh

/-- The coroutine that connects goes on to a phase which the channel allows. -/
theorem At.congr (h : At s k q cur phase) (hs : Same s s')
    (hopening : ∀ c ∈ s'.connector, c.phase = .opening ∨ c.phase = .awaiting → s.sock = none)
    (hawaiting : ∀ c ∈ s'.connector, c.phase = .awaiting → s.failing = []) :
    At s' k q cur phase := by
  refine ⟨?_, ?_, ?_, ?_, ?_, ?_, ?_, ?_, ?_, ?_, ?_, ?_⟩
  · rw [hs.request, h.request]
  · rw [hs.thread, h.thread]
  · exact h.core.congr hs.result hs.resultData hs.waits hs.served
  · exact h.order.congr hs.connections hs.received hs.consumed hs.joined hs.served
  · intro p hp
    obtain ⟨hlt, hcurrent, hprefix⟩ := h.running p hp
    rw [hs.connections, hs.served, hs.joined]
    exact ⟨hlt, hcurrent.congr hs.sock hs.received hs.consumed hs.served, hprefix⟩
  · rw [hs.sock, hs.failing]
    exact h.ended
  · rw [hs.sock, hs.served, hs.joined]
    exact h.sock
  · rw [hs.failing]
    exact h.failing
  · rw [hs.failing, hs.sock]
    exact h.shut
  · rw [hs.waitResponse]
    exact h.woken
  · rw [hs.sock]
    exact hopening
  · rw [hs.failing]
    exact hawaiting

/-- The socket is closed. -/
theorem At.close (h : At s k q cur phase) : At { s with sock := none } k q cur phase := by
  refine ⟨h.request, h.thread, h.core.congr rfl rfl rfl rfl, h.order.congr rfl rfl rfl rfl rfl, ?_,
    fun hp => ⟨rfl, (h.ended hp).2⟩, ?_, h.failing, fun _ => rfl, h.woken, fun _ _ _ => rfl,
    h.awaiting⟩
  · intro p hp
    obtain ⟨hlt, hcurrent, hjoined⟩ := h.running p hp
    refine ⟨hlt, ?_, hjoined⟩
    cases p with
    | closing co errmsg => exact ⟨rfl, hcurrent.2⟩
    | _ => exact hcurrent
  · intro k' hk'
    cases hk'

/-- The dispatch coroutine, or a request that has failed, wakes the callers in the queues. -/
theorem At.wakeupAll {errmsg : Option String} {l : List (ℕ × ℕ)} (h : At s k q cur phase)
    (hsock : s.sock = none) (hl : ∀ x ∈ l, x ∈ s.failing) :
    At (({ s with failing := l } : State D).wakeupAll k errmsg) k [] cur phase := by
  have hcore' : Core ({ s with failing := l } : State D) k (cur ++ callers q) :=
    h.core.congr rfl rfl rfl rfl
  obtain ⟨⟨result, resultData, waits, heq⟩, hcore⟩ :=
    @Core.wakeupAll D _ k q cur errmsg hcore' h.thread
  rw [heq] at hcore ⊢
  refine ⟨rfl, rfl, ?_, h.order.congr rfl rfl rfl rfl rfl, ?_, ?_, ?_,
    fun x hx => h.failing x (hl x hx), fun _ => hsock, ?_, h.opening, ?_⟩
  · rw [callers, List.filterMap_nil, List.append_nil]
    exact hcore
  · intro p hp
    obtain ⟨hlt, hcurrent, hjoined⟩ := h.running p hp
    refine ⟨hlt, hcurrent.congr rfl rfl rfl rfl, List.IsPrefix.trans ?_ hjoined⟩
    rw [callers, List.filterMap_nil, List.append_nil, ← List.append_assoc]
    exact List.prefix_append _ _
  · exact fun hp => ⟨hsock, (h.ended hp).2.1, .inl rfl⟩
  · intro k' hk'
    dsimp only at hk'
    rw [hsock] at hk'
    cases hk'
  · exact fun _ hne => (hne rfl).elim
  · intro c hc hphase
    refine List.eq_nil_iff_forall_not_mem.mpr fun x hx => ?_
    have hmem := hl x hx
    rw [h.awaiting c hc hphase] at hmem
    cases hmem

theorem wakeupAll_sock (conn : ℕ) (errmsg : Option String) :
    (s.wakeupAll conn errmsg).sock = s.sock := by
  obtain ⟨result, resultData, waits, heq⟩ :=
    wakeupThread_eq conn errmsg s.thread { s with request := [], thread := [] }
  unfold State.wakeupAll
  rw [heq]

/-- A close signal is put into the queues. -/
theorem At.signal (h : At s k q cur phase) (hsock : s.sock = none) (hphase : phase ≠ none) :
    At (s.pushResponse none none) k (q ++ [none]) cur phase := by
  have hcallers : callers (q ++ [none]) = callers q := by
    rw [callers_append]
    exact List.append_nil _
  refine ⟨?_, ?_, ?_, h.order.congr rfl rfl rfl rfl rfl, ?_, fun hp => (hphase hp).elim, ?_,
    h.failing, h.shut, fun _ _ => rfl, h.opening, h.awaiting⟩
  · rw [List.map_append, ← h.request]
    rfl
  · rw [List.map_append, ← h.thread]
    rfl
  · rw [hcallers]
    exact h.core.congr rfl rfl rfl rfl
  · rw [hcallers]
    intro p hp
    obtain ⟨hlt, hcurrent, hjoined⟩ := h.running p hp
    exact ⟨hlt, hcurrent.congr rfl rfl rfl rfl, hjoined⟩
  · intro k' hk'
    have hk'' : k' ∈ s.sock := hk'
    rw [hsock] at hk''
    cases hk''

/-- The dispatch coroutine comes to its end. -/
theorem At.finish (h : At s k q [] (some p)) (hsock : s.sock = none)
    (hleft : q = [] ∨ s.failing ≠ []) : Inv { s with dispatchThread := none } := by
  refine ⟨k, q, [], none, rfl, h.request, h.thread, h.core.congr rfl rfl rfl rfl,
    h.order.congr rfl rfl rfl rfl rfl, ?_, fun _ => ⟨hsock, rfl, hleft⟩, h.sock, h.failing, h.shut,
    ?_, h.opening, h.awaiting⟩
  · intro p hp
    cases hp
  · intro hp
    cases hp

/-- `pop_response`: the next caller is served, or a close signal ends the dispatch coroutine. -/
theorem At.popResponse (h : At s k q [] (some p)) (hcurrent : s.consumed k = total (s.served k)) :
    Inv (s.popResponse k) := by
  obtain ⟨hlt, -, hjoined⟩ := h.running p rfl
  have hrequest := h.request
  have hthread := h.thread
  unfold State.popResponse
  cases q with
  | nil =>
    rw [hrequest, hthread]
    refine ⟨k, [], [], some .waiting, rfl, rfl, rfl, h.core.congr rfl rfl rfl rfl,
      h.order.congr rfl rfl rfl rfl rfl, ?_, ?_, h.sock, h.failing, h.shut,
      fun _ hne => (hne rfl).elim, h.opening, h.awaiting⟩
    · intro p' hp'
      cases hp'
      exact ⟨hlt, ⟨rfl, hcurrent⟩, hjoined⟩
    · intro hp'
      cases hp'
  | cons x q =>
    rw [hrequest, hthread]
    cases x with
    | none =>
      have hsock : s.sock = none := by
        by_contra hne
        obtain ⟨k', hk'⟩ := Option.ne_none_iff_exists'.mp hne
        exact (h.sock k' hk').2.1 List.mem_cons_self
      have hrest : At
          { s with
            request := q.map (Option.map Caller.response)
            thread := q.map (Option.map Caller.co) }
          k q [] (some .start) := by
        refine ⟨rfl, rfl, h.core.congr rfl rfl rfl rfl, h.order.congr rfl rfl rfl rfl rfl, ?_, ?_,
          ?_, h.failing, h.shut, ?_, h.opening, h.awaiting⟩
        · intro p' hp'
          cases hp'
          exact ⟨hlt, ⟨rfl, hcurrent⟩, hjoined⟩
        · intro hp'
          cases hp'
        · intro k' hk'
          dsimp only at hk'
          rw [hsock] at hk'
          cases hk'
        · intro hp'
          cases hp'
      refine At.finish (hrest.wakeupAll hsock fun _ h => h) ?_ (.inl rfl)
      exact (wakeupAll_sock k _).trans hsock
    | some x =>
      refine ⟨k, q, [x], some (.called x.co x.response none), rfl, rfl, rfl,
        h.core.congr rfl rfl rfl rfl, h.order.congr rfl rfl rfl rfl rfl, ?_, ?_, ?_, h.failing,
        h.shut, ?_, h.opening,
        h.awaiting⟩
      · intro p' hp'
        cases hp'
        exact ⟨hlt, ⟨⟨x.index, rfl⟩, 0, hcurrent, .start⟩, hjoined⟩
      · intro hp'
        cases hp'
      · intro k' hk'
        obtain ⟨heq, hq, hall⟩ := h.sock k' hk'
        exact ⟨heq, fun hmem => hq (List.mem_cons_of_mem _ hmem), hall⟩
      · intro hp'
        cases hp'

/-- The test of the loop -/
theorem At.dispatchLoop (h : At s k q [] (some p)) (hcurrent : s.consumed k = total (s.served k))
    (hleft : s.sock = none → q = [] ∨ s.failing ≠ []) : Inv (s.dispatchLoop k) := by
  unfold State.dispatchLoop
  split
  · rename_i hsock
    exact h.finish hsock (hleft hsock)
  · exact h.popResponse hcurrent

/-! ## A response function returns, or raises an error -/

theorem answer_eq {ok : Bool} {value : Value D} {size : ℕ} (hnone : s.resultData co = none) :
    s.answer k co func ok value size =
      ({ s.wakeup co k (.answer ok) (some value) with
        served :=
          update s.served k (s.served k ++ [⟨⟨co, (s.served k).length, func⟩, ok, value, size⟩]) } :
          State D).dispatchLoop k := by
  unfold State.answer
  rw [hnone]
  cases ok <;> rfl

/-- The caller that is served is the next one. -/
theorem At.index_eq {x : Caller D} (h : At s k q (x :: cur) (some p)) :
    x.index = (s.served k).length := by
  refine h.order.numbered k _ x ?_
  obtain ⟨-, -, rest, heq⟩ := h.running p rfl
  rw [← heq, List.append_assoc, ← List.length_map Served.caller,
    List.getElem?_append_right (Nat.le_refl _), Nat.sub_self]
  rfl

/-- A caller gets what its response function has returned, on the bytes up to `m`. -/
theorem At.answer {ok : Bool} {value : Value D} {size i m : ℕ}
    (h : At s k q [⟨co, i, func⟩] (some p)) (hm : m = total (s.served k) + size)
    (hreturns : Returns func ((s.received k).drop (total (s.served k))) ok value size)
    (hleft : s.sock = none → q = [] ∨ s.failing ≠ []) :
    Inv (({ s with consumed := update s.consumed k m } : State D).answer k co func ok value
      size) := by
  obtain ⟨hlt, -, hjoined⟩ := h.running p rfl
  have hindex : i = (s.served k).length := h.index_eq
  have hwait : s.waits co = some ⟨k, ⟨co, i, func⟩, 0, none⟩ :=
    h.core.pending ⟨co, i, func⟩ (by simp)
  have hnone : s.resultData co = none := ((h.core.ok co _ hwait).asleep rfl).2.2
  have heq :=
    @answer_eq D { s with consumed := update s.consumed k m } k co func ok value size hnone
  rw [heq]
  dsimp only
  rw [← hindex]
  let entry : Served D := ⟨⟨co, i, func⟩, ok, value, size⟩
  have hserved : update s.served k (s.served k ++ [entry]) k = s.served k ++ [entry] :=
    update_self _ _ _
  have hmem : entry ∈ update s.served k (s.served k ++ [entry]) k := by
    rw [hserved]
    exact List.mem_append_right _ (List.mem_singleton_self _)
  have hserve : Core ({ s with served := update s.served k (s.served k ++ [entry]) } : State D) k
      ([⟨co, i, func⟩] ++ callers q) := h.core.serve
  have hok : Outcome.Ok ⟨k, .answer ok, some value⟩ ⟨k, ⟨co, i, func⟩, 0, none⟩
      (update s.served k (s.served k ++ [entry]) k) :=
    ⟨rfl, .inr ⟨entry, hmem, rfl, rfl, rfl⟩⟩
  have hcore := Core.wakeup (A := []) hserve hok
  have hwho : (s.served k ++ [entry]).map Served.caller ++ callers q =
      (s.served k).map Served.caller ++ ([⟨co, i, func⟩] ++ callers q) := by
    rw [List.map_append, List.append_assoc]
    rfl
  have htotal : update s.consumed k m k =
      total (update s.served k (s.served k ++ [entry]) k) := by
    rw [hserved, total_append, update_self, hm]
  refine At.dispatchLoop (p := .start) (q := q) ?_ htotal hleft
  refine ⟨h.request, h.thread, hcore.congr rfl rfl rfl rfl, ⟨?_, h.order.numbered, ?_, ?_⟩, ?_, ?_,
    ?_, h.failing, h.shut, ?_, h.opening, h.awaiting⟩
  · intro k'
    dsimp only
    by_cases hk : k' = k
    · subst hk
      rw [update_self]
      refine List.IsPrefix.trans ?_ (hwho ▸ hjoined)
      exact List.prefix_append _ _
    · rw [update_of_ne hk]
      exact h.order.served k'
  · intro k'
    dsimp only
    by_cases hk : k' = k
    · subst hk
      rw [update_self]
      exact (h.order.chain k').append hreturns
    · rw [update_of_ne hk]
      exact h.order.chain k'
  · intro k' hk'
    have hge : k' ≥ s.connections := hk'
    show s.joined k' = [] ∧ update s.consumed k m k' = 0
    rw [update_of_ne (by omega)]
    exact h.order.fresh k' hge
  · intro p' hp'
    cases hp'
    refine ⟨hlt, ⟨rfl, htotal⟩, ?_⟩
    dsimp only
    rw [hserved]
    exact hwho ▸ hjoined
  · intro hp'
    cases hp'
  · intro k' hk'
    obtain ⟨hk, hq, hall⟩ := h.sock k' hk'
    dsimp only
    rw [hserved]
    exact ⟨hk, hq, hwho.trans hall⟩
  · intro hp'
    cases hp'

/-- `get_response` goes on. -/
theorem At.goOn {parts : Option (List D)} {i m n : ℕ} (h : At s k q [⟨co, i, func⟩] (some p))
    (hm : m = total (s.served k) + n)
    (hgets : Gets func ((s.received k).drop (total (s.served k))) parts n) :
    Inv { s with
      consumed := update s.consumed k m
      dispatchThread := some ⟨k, .called co func parts⟩ } := by
  obtain ⟨hlt, -, hjoined⟩ := h.running p rfl
  refine ⟨k, q, [⟨co, i, func⟩], some (.called co func parts), rfl, h.request, h.thread,
    h.core.congr rfl rfl rfl rfl, ⟨h.order.served, h.order.numbered, h.order.chain, ?_⟩, ?_, ?_,
    h.sock, h.failing, h.shut, ?_, h.opening, h.awaiting⟩
  · intro k' hk'
    have hge : k' ≥ s.connections := hk'
    dsimp only
    rw [update_of_ne (by omega)]
    exact h.order.fresh k' hge
  · intro p' hp'
    cases hp'
    refine ⟨hlt, ⟨⟨i, rfl⟩, n, ?_, hgets⟩, hjoined⟩
    dsimp only
    rw [update_self, hm]
  · intro hp'
    cases hp'
  · intro hp'
    cases hp'

/-- The response function has returned: `get_response` goes on, or returns. -/
theorem At.respond {parts : Option (List D)} {reply : Reply D}
    (h : At s k q cur (some (.called co func parts)))
    (hrun : func.run (s.unread k) = some reply)
    (hleft : ¬(reply.ok ∧ reply.padding) → s.sock = none → q = [] ∨ s.failing ≠ []) :
    Inv (s.respond k co func parts reply) := by
  obtain ⟨-, ⟨⟨i, rfl⟩, n, hconsumed, hgets⟩, -⟩ := h.running _ rfl
  have hrun' : func.run (((s.received k).drop (total (s.served k))).drop n) = some reply := by
    rw [List.drop_drop, ← hconsumed]
    exact hrun
  have hm : s.consumed k + reply.size = total (s.served k) + (n + reply.size) := by
    rw [hconsumed, Nat.add_assoc]
  have hsize : update s.consumed k (s.consumed k + reply.size) k -
      ((s.served k).map Served.size).sum = n + reply.size := by
    rw [update_self, hm]
    exact Nat.add_sub_cancel_left _ _
  unfold State.respond
  dsimp only
  rw [hsize]
  cases parts with
  | none =>
    cases hgets
    rw [Nat.zero_add] at hm ⊢
    dsimp only
    by_cases hlast : reply.ok ∧ reply.padding
    · rw [if_pos hlast]
      exact h.goOn hm (.first hrun' hlast.1 hlast.2)
    · rw [if_neg hlast]
      exact h.answer hm (.one hrun' hlast) (hleft hlast)
  | some l =>
    dsimp only
    by_cases hok : reply.ok
    · rw [if_neg (not_not.mpr hok)]
      by_cases hpadding : reply.padding
      · rw [if_pos hpadding]
        exact h.goOn hm (.more hgets hrun' hok hpadding)
      · rw [if_neg hpadding]
        exact h.answer hm (.parts hgets hrun' hok hpadding) (hleft fun h => hpadding h.2)
    · rw [if_pos hok]
      exact h.answer hm (.failed hgets hrun' hok) (hleft fun h => hok h.1)

/-- An error in a response function closes the socket. -/
theorem At.raise {errmsg : Option String} {parts : Option (List D)}
    (h : At s k q cur (some (.called co func parts))) : Inv (s.raise k co errmsg) := by
  obtain ⟨hlt, ⟨⟨i, rfl⟩, -⟩, hjoined⟩ := h.running _ rfl
  have hclose := h.close
  refine ⟨k, q, [⟨co, i, func⟩], some (.closing co errmsg), rfl, h.request, h.thread,
    h.core.congr rfl rfl rfl rfl, h.order.congr rfl rfl rfl rfl rfl, ?_, ?_, hclose.sock, h.failing,
    hclose.shut, ?_, hclose.opening, hclose.awaiting⟩
  · intro p' hp'
    cases hp'
    exact ⟨hlt, ⟨rfl, _, rfl, rfl⟩, hjoined⟩
  · intro hp'
    cases hp'
  · intro hp'
    cases hp'

/-- After the socket has been closed, the caller and those in the queues get the error. -/
theorem At.fail {errmsg : Option String} (h : At s k q cur (some (.closing co errmsg))) :
    Inv (s.fail k co errmsg) := by
  obtain ⟨-, ⟨hsock, x, rfl, rfl⟩, -⟩ := h.running _ rfl
  have hok : Outcome.Ok ⟨k, .socketError, errmsg.map .message⟩ ⟨k, x, 0, none⟩ (s.served k) :=
    ⟨rfl, .inl rfl⟩
  have hcore := Core.wakeup (A := []) h.core hok
  obtain ⟨⟨result, resultData, waits, heq⟩, hwoken⟩ :=
    @Core.wakeupAll D _ k q [] errmsg hcore h.thread
  unfold State.fail State.dispatchLoop
  dsimp only
  rw [heq] at hwoken ⊢
  have hloop : (s.wakeup x.co k .socketError (errmsg.map .message)).sock = none := hsock
  dsimp only
  rw [hloop]
  refine ⟨k, [], [], none, rfl, rfl, rfl, hwoken.congr rfl rfl rfl rfl,
    h.order.congr rfl rfl rfl rfl rfl, ?_, fun _ => ⟨rfl, rfl, .inl rfl⟩, ?_, h.failing,
    fun _ => rfl, ?_, fun _ _ _ => rfl, h.awaiting⟩
  · intro p' hp'
    cases hp'
  · intro k' hk'
    cases hk'
  · intro hp'
    cases hp'

end SkynetEureka.SocketChannel
