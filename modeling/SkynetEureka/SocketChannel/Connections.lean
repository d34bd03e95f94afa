import SkynetEureka.SocketChannel.Dispatching

/-!
# Connecting

`Inv` through the connections of a channel. A new one begins when the dispatch coroutine of the last
one has come to its end, and then the queues are empty.
-/

namespace SkynetEureka.SocketChannel

open Lib Function

variable {D : Type} {s s' : State D} {k co conn : ℕ} {q : List (Option (Caller D))}
  {cur : List (Caller D)} {phase : Option (Phase D)} {c : Connector D} {call : Call D}

/-! ## The coroutine that connects -/

theorem Inv.congr (h : Inv s) (hs : Same s s') (hd : s'.dispatchThread = s.dispatchThread)
    (hopening : ∀ c ∈ s'.connector, c.phase = .opening ∨ c.phase = .awaiting → s.sock = none)
    (hawaiting : ∀ c ∈ s'.connector, c.phase = .awaiting → s.failing = []) : Inv s' := by
  obtain ⟨k, q, cur, phase, hdispatch, h⟩ := h
  exact ⟨k, q, cur, phase, hd.trans hdispatch, h.congr hs hopening hawaiting⟩

/-- What the coroutine that connects does not touch. -/
theorem Inv.same (h : Inv s) (hs : Same s s') (hd : s'.dispatchThread = s.dispatchThread)
    (hc : s'.connector = s.connector) : Inv s' := by
  obtain ⟨k, q, cur, phase, hdispatch, h⟩ := h
  refine ⟨k, q, cur, phase, hd.trans hdispatch, h.congr hs ?_ ?_⟩
  · rw [hc]
    exact h.opening
  · rw [hc]
    exact h.awaiting

theorem Inv.close (h : Inv s) : Inv { s with sock := none } := by
  obtain ⟨k, q, cur, phase, hdispatch, h⟩ := h
  exact ⟨k, q, cur, phase, hdispatch, h.close⟩

/-- The connection is not waited for. -/
theorem At.settled (h : At s k q cur phase) (hs : Same s s')
    (hc : ∀ c ∈ s'.connector, c.phase ≠ .opening ∧ c.phase ≠ .awaiting) : At s' k q cur phase := by
  refine h.congr hs ?_ ?_
  · intro c hmem hphase
    rcases hphase with hopening | hawaiting
    · exact ((hc c hmem).1 hopening).elim
    · exact ((hc c hmem).2 hawaiting).elim
  · intro c hmem hawaiting
    exact ((hc c hmem).2 hawaiting).elim

theorem Inv.settled (h : Inv s) (hs : Same s s') (hd : s'.dispatchThread = s.dispatchThread)
    (hc : ∀ c ∈ s'.connector, c.phase ≠ .opening ∧ c.phase ≠ .awaiting) : Inv s' := by
  obtain ⟨k, q, cur, phase, hdispatch, h⟩ := h
  exact ⟨k, q, cur, phase, hd.trans hdispatch, h.settled hs hc⟩

theorem Inv.connected (h : Inv s) : Inv (s.connected c) := by
  refine h.settled (by constructor <;> rfl) rfl ?_
  intro c hc
  cases hc

theorem Inv.retry (h : Inv s) : Inv (s.retry c) := by
  unfold State.retry
  split
  · exact h.connected
  · refine h.settled (by constructor <;> rfl) rfl ?_
    intro c' hc'
    cases hc'
    exact ⟨nofun, nofun⟩

/-- The dispatch coroutine of a socket that has been closed gets a close signal. -/
theorem Inv.term (h : Inv s) (hsock : s.sock = none) : Inv s.termDispatchThread := by
  unfold State.termDispatchThread
  split
  · exact h
  · rename_i d hd
    obtain ⟨k, q, cur, phase, hdispatch, h⟩ := h
    refine ⟨k, q ++ [none], cur, phase, hdispatch, h.signal hsock ?_⟩
    rintro rfl
    rw [hd] at hdispatch
    cases hdispatch

theorem termDispatchThread_sock : s.termDispatchThread.sock = s.sock := by
  unfold State.termDispatchThread
  split <;> rfl

theorem Inv.connectOnce (h : Inv s) : ∀ s' ∈ s.connectOnce c, Inv s' := by
  intro s' hs'
  unfold State.connectOnce at hs'
  obtain ⟨hfree, heq⟩ := Option.ite_none_left_eq_some.mp hs'
  rw [not_or, not_or] at hfree
  have hsock : s.sock = none := Option.not_isSome_iff_eq_none.mp hfree.2.1
  cases heq
  refine (h.term hsock).congr (by constructor <;> rfl) rfl ?_ ?_
  · intro c' hc' _
    exact termDispatchThread_sock.trans hsock
  · intro c' hc' hphase
    cases hc'
    cases hphase

theorem Inv.connectOnce_getD (h : Inv s) : Inv ((s.connectOnce c).getD (s.retry c)) := by
  cases heq : s.connectOnce c with
  | none => exact h.retry
  | some s' => exact h.connectOnce s' heq

theorem Inv.tryConnect (h : Inv s) : Inv (s.tryConnect c) := by
  unfold State.tryConnect
  split
  · exact h.connected
  · exact h.connectOnce_getD

/-- A new connection begins with empty queues. -/
theorem Inv.establish (h : Inv s) (hsock : s.sock = none) (hfailing : s.failing = []) :
    Inv (s.establish c) := by
  unfold State.establish
  split
  · refine h.congr (by constructor <;> rfl) rfl (fun _ _ _ => hsock) (fun _ _ _ => hfailing)
  · rename_i hd
    obtain ⟨k, q, cur, phase, hdispatch, h⟩ := h
    have hphase : phase = none := by
      rw [hd] at hdispatch
      cases phase with
      | none => rfl
      | some p => cases hdispatch
    obtain ⟨-, hcur, hq⟩ := h.ended hphase
    have hq := hq.resolve_right (not_not.mpr hfailing)
    subst hcur hq
    obtain ⟨hjoined, hconsumed⟩ := h.order.fresh s.connections (Nat.le_refl _)
    have hserved : s.served s.connections = [] := by
      have hprefix := h.order.served s.connections
      rw [hjoined, List.prefix_nil, List.map_eq_nil_iff] at hprefix
      exact hprefix
    have hnew : At
        { s with
          sock := some s.connections
          connections := s.connections + 1
          dispatchThread := some ⟨s.connections, .start⟩
          connector := none }
        s.connections [] [] (some .start) := by
      refine ⟨h.request, h.thread, ?_, ⟨h.order.served, h.order.numbered, h.order.chain, ?_⟩, ?_,
        ?_, ?_, ?_, ?_, ?_,
        ?_, ?_⟩
      · refine ⟨?_, List.nodup_nil, h.core.waiting, h.core.idle, ?_⟩
        · intro x hx
          cases hx
        · intro co w hw
          exact ⟨(h.core.ok co w hw).own, (h.core.ok co w hw).asleep, (h.core.ok co w hw).awake⟩
      · intro k' hk'
        exact h.order.fresh k' (Nat.le_of_succ_le hk')
      · intro p hp
        cases hp
        refine ⟨Nat.lt_succ_self _, ⟨rfl, ?_⟩, ?_⟩
        · dsimp only
          rw [hconsumed, hserved]
          rfl
        · dsimp only
          rw [hserved]
          exact List.nil_prefix
      · intro hp
        cases hp
      · intro k' hk'
        cases hk'
        refine ⟨rfl, List.not_mem_nil, ?_⟩
        dsimp only
        rw [hserved, hjoined]
        rfl
      · dsimp only
        rw [hfailing]
        intro x hx
        cases hx
      · exact fun hne => (hne hfailing).elim
      · intro hp
        cases hp
      · intro c' hc'
        cases hc'
      · intro c' hc'
        cases hc'
    dsimp only
    split
    · refine ⟨s.connections, [], [], some .start, rfl, hnew.settled (by constructor <;> rfl) ?_⟩
      intro c' hc'
      cases hc'
      exact ⟨nofun, nofun⟩
    · refine ⟨s.connections, [], [], some .start, rfl, hnew.settled (by constructor <;> rfl) ?_⟩
      intro c' hc'
      cases hc'

/-! ## The calls -/

/-- A connection that is there is that of the dispatch coroutine. -/
theorem At.running_of_sock (h : At s k q cur phase) (hsock : s.sock = some conn) :
    conn = k ∧ k < s.connections ∧ phase ≠ none ∧
      (s.served k).map Served.caller ++ (cur ++ callers q) = s.joined k := by
  have hphase : phase ≠ none := by
    intro hnone
    have hclosed := (h.ended hnone).1
    rw [hsock] at hclosed
    cases hclosed
  obtain ⟨p, hp⟩ := Option.ne_none_iff_exists'.mp hphase
  exact ⟨(h.sock conn hsock).1, (h.running p hp).1, hphase, (h.sock conn hsock).2.2⟩

/-- A caller queues up. -/
theorem Inv.waitForResponse {response : Response D} (h : Inv s) (hsock : s.sock = some conn)
    (hidle : s.waits co = none) : Inv (s.waitForResponse conn co response) := by
  obtain ⟨k, q, cur, phase, hdispatch, h⟩ := h
  obtain ⟨hk, hlt, hphase, hall⟩ := h.running_of_sock hsock
  let caller : Caller D := ⟨co, (s.joined conn).length, response⟩
  have hcallers : callers (q ++ [some caller]) = callers q ++ [caller] := by
    rw [callers_append]
    rfl
  have hjoined : (s.served k).map Served.caller ++ (cur ++ callers (q ++ [some caller])) =
      update s.joined conn (s.joined conn ++ [caller]) k := by
    rw [hcallers, hk, update_self, ← hall, List.append_assoc, List.append_assoc]
  have hcore : Core (s.waitForResponse conn co response) k (cur ++ callers q ++ [caller]) :=
    h.core.join hidle hk
  refine ⟨k, q ++ [some caller], cur, phase, hdispatch, ?_, ?_, ?_, ⟨?_, ?_, h.order.chain, ?_⟩,
    ?_, fun hnone => (hphase hnone).elim, ?_, h.failing, h.shut, fun _ _ => rfl, h.opening,
    h.awaiting⟩
  · rw [List.map_append, ← h.request]
    rfl
  · rw [List.map_append, ← h.thread]
    rfl
  · rw [hcallers, ← List.append_assoc]
    exact hcore
  · intro k'
    refine (h.order.served k').trans ?_
    show s.joined k' <+: update s.joined conn (s.joined conn ++ [caller]) k'
    by_cases hk' : k' = conn
    · rw [hk', update_self]
      exact List.prefix_append _ _
    · rw [update_of_ne hk']
  · intro k' i x hx
    have hx : (update s.joined conn (s.joined conn ++ [caller]) k')[i]? = some x := hx
    by_cases hk' : k' = conn
    · rw [hk', update_self, List.getElem?_append] at hx
      split at hx
      · exact h.order.numbered conn i x hx
      · rename_i hge
        obtain ⟨hi, heq⟩ := List.getElem?_eq_some_iff.mp hx
        rw [List.length_singleton] at hi
        rw [List.getElem_singleton] at heq
        rw [← heq]
        show (s.joined conn).length = i
        omega
    · rw [update_of_ne hk'] at hx
      exact h.order.numbered k' i x hx
  · intro k' hk'
    have hge : k' ≥ s.connections := hk'
    show update s.joined conn (s.joined conn ++ [caller]) k' = [] ∧ _
    rw [update_of_ne (by omega)]
    exact h.order.fresh k' hge
  · intro p hp
    obtain ⟨-, hcurrent, -⟩ := h.running p hp
    exact ⟨hlt, hcurrent.congr rfl rfl rfl rfl, hjoined ▸ List.prefix_refl _⟩
  · intro k' hk'
    obtain ⟨heq, hq, -⟩ := h.sock k' hk'
    refine ⟨heq, ?_, hjoined⟩
    intro hmem
    rcases List.mem_append.mp hmem with hold | hnew
    · exact hq hold
    · cases List.mem_singleton.mp hnew

/-- The write of a request fails. -/
theorem Inv.failed (h : Inv s) (hsock : s.sock = some conn) :
    Inv { s with sock := none, failing := s.failing ++ [(co, conn)] } := by
  obtain ⟨k, q, cur, phase, hdispatch, h⟩ := h
  obtain ⟨hk, -, hphase, -⟩ := h.running_of_sock hsock
  have hclose := h.close
  refine ⟨k, q, cur, phase, hdispatch, h.request, h.thread, hclose.core.congr rfl rfl rfl rfl,
    h.order.congr rfl rfl rfl rfl rfl, ?_, fun hnone => (hphase hnone).elim, hclose.sock, ?_,
    fun _ => rfl, h.woken, fun _ _ _ => rfl, ?_⟩
  · intro p hp
    obtain ⟨hlt, hcurrent, hjoined⟩ := hclose.running p hp
    exact ⟨hlt, hcurrent.congr rfl rfl rfl rfl, hjoined⟩
  · intro x hx
    rcases List.mem_append.mp hx with hold | hnew
    · exact h.failing x hold
    · rw [List.mem_singleton.mp hnew]
      exact hk
  · intro c hc hphase
    have hclosed := h.opening c hc (.inr hphase)
    rw [hsock] at hclosed
    cases hclosed

theorem Inv.proceed {written : Bool} (h : Inv s) (hsock : s.sock = some conn)
    (hidle : s.waits co = none) : Inv (s.proceed conn co written call) := by
  cases call with
  | request response =>
    unfold State.proceed
    dsimp only
    by_cases hwritten : ¬written
    · rw [if_pos hwritten]
      exact h.failed hsock
    · rw [if_neg hwritten]
      cases response with
      | none => exact h
      | some response => exact h.waitForResponse hsock hidle
  | response response => exact h.waitForResponse hsock hidle
  | connect once => exact h

theorem Inv.checkConnection {disconnected : Bool} (h : Inv s) :
    Inv (s.checkConnection co disconnected).1 := by
  unfold State.checkConnection
  dsimp only
  split
  · exact h
  · split
    · exact h.close
    · split <;> exact h

theorem checkConnection_waits {disconnected : Bool} :
    (s.checkConnection co disconnected).1.waits = s.waits := by
  unfold State.checkConnection
  dsimp only
  split
  · rfl
  · split
    · rfl
    · split <;> rfl

theorem Inv.goOn {written : Bool} (x : State D × Option Bool) (h : Inv x.1)
    (hidle : x.1.waits co = none) : Inv (State.goOn co call written x) := by
  unfold State.goOn
  split
  · rename_i s
    split
    · exact h
    · rename_i conn hsock
      exact h.proceed hsock hidle
  · exact h

theorem Inv.blockConnect {disconnected written : Bool} (h : Inv s) (hidle : s.waits co = none) :
    Inv (s.blockConnect co call disconnected written) := by
  have hcheck : Inv (s.checkConnection co disconnected).1 := h.checkConnection
  have hwaits : (s.checkConnection co disconnected).1.waits = s.waits := checkConnection_waits
  unfold State.blockConnect
  split
  · rename_i s' heq
    rw [heq] at hcheck
    split
    · exact hcheck.same (by constructor <;> rfl) rfl rfl
    · exact hcheck.tryConnect
  · rename_i s' r heq
    rw [heq] at hcheck hwaits
    exact Inv.goOn (s', some r) hcheck ((congrFun hwaits co).trans hidle)

end SkynetEureka.SocketChannel
