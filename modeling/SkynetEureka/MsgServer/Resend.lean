import SkynetEureka.MsgServer.Responses
import SkynetEureka.MsgServer.Server

/-!
# A response is sent again

What a step does to the records and the runs is said once (`Serves`). Each record then takes a step
that keeps its responses until they are old, or their session is used again (`responses_kept`).
-/

namespace SkynetEureka.MsgServer

open Lib Function

variable {ι : Type}

/-- The message is a request for the record. -/
structure State.Requests (s : State ι) (id fd : ℕ) (message : List UInt8) : Prop where
  client : s.gate.client fd = some true
  handshake : s.handshake fd = none
  connection : s.connection fd = some id
  session : 4 ≤ message.length

/-- The two records have the same responses. -/
structure User.Same (u u' : User ι) : Prop where
  entries : u'.entries = u.entries
  response : u'.response = u.response
  index : u'.index = u.index
  responded : u'.responded = u.responded

theorem User.Same.refl (u : User ι) : u.Same u := ⟨rfl, rfl, rfl, rfl⟩

/-- What a step does to the records and the runs. -/
inductive Serves [DecidableEq ι] [Zero ι] (n : ℕ) (s : State ι) :
    Action → List (User ι) → List HandlerRun → Prop
  | other {a : Action} {runs : List HandlerRun} (hruns : runs.Sublist s.runs) :
      Serves n s a s.users runs
  | login {a : Action} (username secret : List UInt8) :
      Serves n s a (s.users ++ [⟨secret, 0, 0, username, .empty, none, none, [], 0⟩]) s.runs
  | modify {a : Action} {id : ℕ} {f : User ι → User ι} (hf : ∀ u : User ι, u.Same (f u)) :
      Serves n s a (s.users.modify id f) s.runs
  | request {id fd : ℕ} {message : List UInt8} {u : User ι} (h : s.Requests id fd message)
      (hget : s.users[id]? = some u) (hreply : (u.request n fd (sessionOf message)).2 ≠ .run) :
      Serves n s (.msgData fd message)
        (s.users.set id (u.request n fd (sessionOf message)).1) s.runs
  | run {id fd : ℕ} {message : List UInt8} {u : User ι} (h : s.Requests id fd message)
      (hget : s.users[id]? = some u) (hreply : (u.request n fd (sessionOf message)).2 = .run) :
      Serves n s (.msgData fd message)
        (s.users.set id (u.request n fd (sessionOf message)).1)
        (s.runs ++ [⟨id, u.entries.length, fd⟩])
  | complete {run : HandlerRun} {outcome : Outcome} {u : User ι} {response : List UInt8}
      {sent : Bool} (hmem : run ∈ s.runs) (hget : s.users[run.user]? = some u) :
      Serves n s (.handled run outcome)
        (s.users.set run.user (u.complete n run.entry response sent)) (s.runs.erase run)

section

variable [LinearOrder ι] [Zero ι] {conf : Conf ι} {s s' : State ι} {a : Action}

theorem serves_disconnect (fd : ℕ) :
    Serves conf.expiredNumber s a (s.disconnect conf fd).users (s.disconnect conf fd).runs := by
  unfold State.disconnect
  dsimp only
  split
  · exact .other (List.Sublist.refl _)
  · split_ifs
    · exact .modify fun _ => ⟨rfl, rfl, rfl, rfl⟩
    · exact .modify fun _ => ⟨rfl, rfl, rfl, rfl⟩

theorem serves_msgData (fd : ℕ) (message : List UInt8) :
    Serves conf.expiredNumber s (.msgData fd message) (s.msgData conf fd message).users
      (s.msgData conf fd message).runs := by
  have hsame := Serves.other (n := conf.expiredNumber) (s := s) (a := .msgData fd message)
    (List.Sublist.refl _)
  unfold State.msgData
  split_ifs with hclient
  · split
    · unfold State.auth
      split
      · exact .modify fun _ => ⟨rfl, rfl, rfl, rfl⟩
      · exact hsame
    · rename_i hhandshake
      unfold State.request
      split
      · exact hsame
      rename_i id hconn
      split
      · exact hsame
      rename_i u hget
      split_ifs with hlen
      · exact hsame
      have hrequests : s.Requests id fd message :=
        ⟨hclient, hhandshake, hconn, not_lt.mp hlen⟩
      have hrest := Serves.request (n := conf.expiredNumber) hrequests hget
      dsimp only
      split
      · rename_i hreply
        exact hrest (hreply ▸ nofun)
      · rename_i hreply
        exact .run hrequests hget hreply
      · rename_i hreply
        exact hrest (hreply ▸ nofun)
      · rename_i hreply
        exact hrest (hreply ▸ nofun)
  · exact hsame

theorem serves_step (hstep : s.step conf a = some s') :
    Serves conf.expiredNumber s a s'.users s'.runs := by
  have hsame := Serves.other (n := conf.expiredNumber) (s := s) (a := a) (List.Sublist.refl _)
  cases a with
  | login username secret =>
    cases hstep
    unfold State.login
    split_ifs
    · exact .login username secret
    · exact hsame
  | logout username =>
    cases hstep
    unfold State.logout
    split
    · exact hsame
    · dsimp only
      split
      · exact hsame
      · exact hsame
  | msgOpen fd addr =>
    rw [State.step] at hstep
    split_ifs at hstep
    cases hstep
    unfold State.msgOpen
    split_ifs
    · exact hsame
    · exact hsame
  | msgData fd message =>
    cases hstep
    exact serves_msgData fd message
  | msgClose fd =>
    cases hstep
    exact serves_disconnect fd
  | msgError fd =>
    cases hstep
    exact serves_disconnect fd
  | handled run outcome =>
    obtain ⟨u, hget, hstep⟩ := Option.bind_eq_some_iff.mp hstep
    obtain ⟨p, -, hstep⟩ := Option.bind_eq_some_iff.mp hstep
    split_ifs at hstep with hmem
    cases hstep
    unfold State.handled
    split
    · split_ifs
      · exact .other List.erase_sublist
      · exact .other List.erase_sublist
    · exact .complete hmem hget
  | disconnected fd ok =>
    rw [State.step] at hstep
    split_ifs at hstep
    · cases hstep
      exact hsame
    · cases hstep
      exact hsame

end

/-! ## The invariant -/

/-- Each record is sound, and the runs are of different entries that have no response. -/
structure Served (n : ℕ) (users : List (User ι)) (runs : List HandlerRun) : Prop where
  sound : ∀ (id : ℕ) (u : User ι), users[id]? = some u → u.Sound n
  running : ∀ r ∈ runs, ∃ u, users[r.user]? = some u ∧ u.Running r.entry
  apart : (runs.map fun r => (r.user, r.entry)).Nodup

namespace Served

variable {n : ℕ} {users : List (User ι)} {runs runs' : List HandlerRun}

theorem set (h : Served n users runs) {id : ℕ} {u u' : User ι} (hget : users[id]? = some u)
    (hsound : u'.Sound n) (hruns : runs'.Sublist runs)
    (hrunning : ∀ r ∈ runs', r.user = id → u.Running r.entry → u'.Running r.entry) :
    Served n (users.set id u') runs' := by
  refine ⟨fun id' v hv => ?_, fun r hr => ?_, (hruns.map _).nodup h.apart⟩
  · rcases getElem?_set_cases hv with ⟨-, rfl⟩ | ⟨-, hv⟩
    · exact hsound
    · exact h.sound id' v hv
  · obtain ⟨v, hv, hrun⟩ := h.running r (hruns.subset hr)
    by_cases hid : r.user = id
    · rw [hid] at hv ⊢
      obtain rfl := Option.some.inj (hget.symm.trans hv)
      exact ⟨u', List.getElem?_set_self (List.getElem?_eq_some_iff.mp hget).1,
        hrunning r hr hid hrun⟩
    · rw [List.getElem?_set_ne (Ne.symm hid)]
      exact ⟨v, hv, hrun⟩

/-- One more run, of a new entry. -/
theorem concat (h : Served n users runs) {id fd e : ℕ} {u : User ι} (hget : users[id]? = some u)
    (hrun : u.Running e) (hnew : ∀ r ∈ runs, r.user = id → r.entry ≠ e) :
    Served n users (runs ++ [⟨id, e, fd⟩]) := by
  refine ⟨h.sound, fun r hr => ?_, ?_⟩
  · rcases List.mem_append.mp hr with hr | hr
    · exact h.running r hr
    · obtain rfl := List.mem_singleton.mp hr
      exact ⟨u, hget, hrun⟩
  · rw [List.map_append, List.map_singleton, ← List.concat_eq_append]
    refine h.apart.concat fun hmem => ?_
    obtain ⟨r, hr, heq⟩ := List.mem_map.mp hmem
    exact hnew r hr (Prod.mk.inj heq).1 (Prod.mk.inj heq).2

variable [DecidableEq ι] [Zero ι] {s : State ι} {a : Action}

theorem serves {users' : List (User ι)} (h : Served n s.users s.runs)
    (hserves : Serves n s a users' runs') : Served n users' runs' := by
  cases hserves with
  | other hruns =>
    exact ⟨h.sound, fun r hr => h.running r (hruns.subset hr), (hruns.map _).nodup h.apart⟩
  | login username secret =>
    refine ⟨fun id u hu => ?_, fun r hr => ?_, h.apart⟩
    · rcases getElem?_concat_cases hu with hu | ⟨-, rfl⟩
      · exact h.sound id u hu
      · exact User.Sound.login n username secret
    · obtain ⟨u, hu, hrun⟩ := h.running r hr
      exact ⟨u, getElem?_concat_of_eq_some hu, hrun⟩
  | @modify _ id f hf =>
    refine ⟨fun id' u hu => ?_, fun r hr => ?_, h.apart⟩
    · rw [List.getElem?_modify] at hu
      obtain ⟨v, hv, rfl⟩ := Option.map_eq_some_iff.mp hu
      split_ifs
      · have hsame := hf v
        exact (h.sound id' v hv).congr hsame.entries hsame.response hsame.index hsame.responded
      · exact h.sound id' v hv
    · obtain ⟨v, hv, hrun⟩ := h.running r hr
      rw [List.getElem?_modify, hv]
      refine ⟨_, rfl, ?_⟩
      dsimp only
      split_ifs
      · unfold User.Running
        rw [(hf v).entries]
        exact hrun
      · exact hrun
  | request hrequests hget hreply =>
    exact h.set hget ((h.sound _ _ hget).request _ _) (List.Sublist.refl _)
      fun r hr hid hrun => hrun.request
  | @run id fd message u hrequests hget hreply =>
    have hset := h.set hget ((h.sound _ _ hget).request fd (sessionOf message))
      (List.Sublist.refl _) fun r hr hid hrun => hrun.request
    refine hset.concat (List.getElem?_set_self (List.getElem?_eq_some_iff.mp hget).1)
      (User.running_request hreply) fun r hr hid => ?_
    -- the entry of a run is one of the old ones
    obtain ⟨v, hv, p, hp, -⟩ := h.running r hr
    rw [hid, hget] at hv
    obtain rfl := Option.some.inj hv
    exact ne_of_lt (List.getElem?_eq_some_iff.mp hp).1
  | @complete run outcome u response sent hmem hget =>
    obtain ⟨v, hv, p, hp, hnone⟩ := h.running run hmem
    obtain rfl := Option.some.inj (hget.symm.trans hv)
    refine h.set hget ((h.sound _ _ hget).complete hp hnone response sent) List.erase_sublist ?_
    intro r hr hid hrun
    have hne : r ≠ run := by
      rintro rfl
      exact (List.Nodup.of_map _ h.apart).not_mem_erase hr
    apply hrun.complete
    intro hentry
    exact hne (List.inj_on_of_nodup_map h.apart (List.mem_of_mem_erase hr) hmem
      (Prod.ext hid hentry))

omit [DecidableEq ι] [Zero ι] in
theorem init (maxclient : ℕ) :
    Served n (State.init maxclient : State ι).users (State.init maxclient : State ι).runs :=
  ⟨nofun, nofun, List.nodup_nil⟩

end Served

/-! ## What a step keeps -/

/-- The request uses the session of `p` again, in the connection that `p` has. -/
def State.Reuses (s : State ι) (id : ℕ) (u : User ι) (p : Entry ι) : Action → Prop
  | .msgData fd message =>
    s.Requests id fd message ∧ sessionOf message = p.session ∧ p.version = some u.version
  | _ => False

/-- The response of `p` is still in the cache. -/
def User.StillKept (u : User ι) (e : ℕ) (p : Entry ι) : Prop :=
  ∃ q, u.Kept e q ∧ q.session = p.session ∧ q.response = p.response

section

variable [LinearOrder ι] [Zero ι] {s s' : State ι} {a : Action} {n id e : ℕ} {u : User ι}
  {p : Entry ι} {users' : List (User ι)} {runs' : List HandlerRun}

omit [LinearOrder ι] [Zero ι] in
theorem User.Kept.same {u' : User ι} (hp : u.Kept e p) (h : u.Same u') : u'.StillKept e p :=
  ⟨p, ⟨h.entries ▸ hp.entry, h.response ▸ hp.cached, hp.completed⟩, rfl, rfl⟩

theorem Served.kept (h : Served n s.users s.runs) (hserves : Serves n s a users' runs')
    (hget : s.users[id]? = some u) (hp : u.Kept e p) :
    ∃ u', users'[id]? = some u' ∧
      (u'.StillKept e p ∨ s.Reuses id u p a ∨ n + p.stamp ≤ u'.responded) := by
  have hlt := (List.getElem?_eq_some_iff.mp hget).1
  have hsame : u.StillKept e p := hp.same (User.Same.refl u)
  -- a request changes the record that it is for
  have hrequest : ∀ {id' fd : ℕ} {message : List UInt8} {v : User ι},
      s.Requests id' fd message → s.users[id']? = some v →
      ∃ u', (s.users.set id' (v.request n fd (sessionOf message)).1)[id]? = some u' ∧
        (u'.StillKept e p ∨ s.Reuses id u p (.msgData fd message) ∨
          n + p.stamp ≤ u'.responded) := by
    intro id' fd message v hrequests hv
    by_cases hid : id = id'
    · subst hid
      obtain rfl := Option.some.inj (hget.symm.trans hv)
      refine ⟨_, List.getElem?_set_self hlt, ?_⟩
      rcases (h.sound id u hget).kept_request hp with
        hkept | ⟨hsession, hversion⟩ | hold
      · exact .inl hkept
      · exact .inr (.inl ⟨hrequests, hsession.symm, hversion⟩)
      · exact .inr (.inr hold)
    · rw [List.getElem?_set_ne (Ne.symm hid)]
      exact ⟨u, hget, .inl hsame⟩
  cases hserves with
  | other hruns => exact ⟨u, hget, .inl hsame⟩
  | login username secret => exact ⟨u, getElem?_concat_of_eq_some hget, .inl hsame⟩
  | @modify _ id' f hf =>
    rw [List.getElem?_modify, hget]
    refine ⟨_, rfl, .inl ?_⟩
    dsimp only
    split_ifs
    · exact hp.same (hf u)
    · exact hsame
  | request hrequests hv hreply => exact hrequest hrequests hv
  | run hrequests hv hreply => exact hrequest hrequests hv
  | @complete run outcome v response sent hmem hv =>
    by_cases hid : id = run.user
    · subst hid
      obtain rfl := Option.some.inj (hget.symm.trans hv)
      obtain ⟨w, hw, q, hq, hnone⟩ := h.running run hmem
      obtain rfl := Option.some.inj (hget.symm.trans hw)
      refine ⟨_, List.getElem?_set_self hlt, ?_⟩
      rcases (h.sound _ u hget).kept_complete hq hnone response sent hp with hkept | hold
      · exact .inl hkept
      · exact .inr (.inr hold)
    · rw [List.getElem?_set_ne (Ne.symm hid)]
      exact ⟨u, hget, .inl hsame⟩

variable {conf : Conf ι} {fd : ℕ} {message : List UInt8}

omit [Zero ι] in
/-- A request whose session is cached from before runs nothing. -/
theorem msgData_cached (hrequests : s.Requests id fd message) (hget : s.users[id]? = some u)
    (hfind : u.find (sessionOf message) = some (e, p)) (hversion : p.version ≠ some u.version) :
    (s.msgData conf fd message).runs = s.runs ∧
    (s.msgData conf fd message).requests = s.requests ∧
    (∀ response, p.response = some response →
      (s.msgData conf fd message).sent = s.sent ++ [(fd, .response response)]) ∧
    (p.response = none → ∃ u' q, (s.msgData conf fd message).users[id]? = some u' ∧
      u'.entries[e]? = some q ∧ q.returnFd = some fd ∧ q.response = none) := by
  have hlt := (List.getElem?_eq_some_iff.mp hget).1
  have hentry := (User.find_eq_some.mp hfind).2
  have hdata : s.msgData conf fd message = s.request conf fd message := by
    unfold State.msgData
    rw [if_pos hrequests.client, hrequests.handshake]
  rw [hdata]
  unfold State.request
  rw [hrequests.connection]
  dsimp only
  rw [hget]
  dsimp only
  rw [if_neg (not_lt.mpr hrequests.session)]
  unfold User.request
  rw [hfind]
  dsimp only
  rw [if_neg hversion]
  cases hresponse : p.response with
  | none =>
    refine ⟨rfl, rfl, nofun, fun _ => ?_⟩
    refine ⟨_, { p with
      returnFd := some fd
      version := some u.version
      index := u.index
      requests := p.requests + 1 }, List.getElem?_set_self hlt, ?_, rfl, hresponse⟩
    show (u.entries.modify e _)[e]? = _
    rw [List.getElem?_modify_eq, hentry]
    rfl
  | some response =>
    refine ⟨rfl, rfl, fun r hr => ?_, nofun⟩
    obtain rfl := Option.some.inj hr
    rfl

/-- What holds of the responses in a state. -/
structure State.Resends (conf : Conf ι) (s : State ι) : Prop where
  /-- A completed response goes only when its session is used again in the connection that it has,
  or when `expired_number` responses have been completed or sent again after it. -/
  kept : ∀ a t, s.step conf a = some t → ∀ id u e p, s.users[id]? = some u → u.Kept e p →
    ∃ u', t.users[id]? = some u' ∧ (u'.StillKept e p ∨ s.Reuses id u p a ∨
      conf.expiredNumber + p.stamp ≤ u'.responded)
  /-- A request for a response of an earlier connection gets it, or the response will go to its
  socket; `request_handler` is not called. -/
  resent : ∀ id fd message u e p, s.Requests id fd message → s.users[id]? = some u →
    u.find (sessionOf message) = some (e, p) → p.version ≠ some u.version →
    ∃ t, s.step conf (.msgData fd message) = some t ∧ t.runs = s.runs ∧
      t.requests = s.requests ∧
      (∀ response, p.response = some response → t.sent = s.sent ++ [(fd, .response response)]) ∧
      (p.response = none → ∃ u' q, t.users[id]? = some u' ∧ u'.entries[e]? = some q ∧
        q.returnFd = some fd ∧ q.response = none)
  sends : ∀ (id : ℕ) (u : User ι) (e : ℕ) (p : Entry ι), s.users[id]? = some u →
    u.entries[e]? = some p → p.sends ≤ p.requests
  bounded : ∀ (id : ℕ) (u : User ι), s.users[id]? = some u → 0 < conf.expiredNumber →
    u.completed.length ≤ 2 * conf.expiredNumber

/-- **Responses are sent again, and requests are not run again.** -/
theorem responses_kept {maxclient : ℕ} {as : List Action}
    (h : run (State.step conf) (.init maxclient) as = some s) : s.Resends conf := by
  have hserved : Served conf.expiredNumber s.users s.runs :=
    @run_invariant_of_step _ _ _ _ _ _
      (fun s : State ι => Served conf.expiredNumber s.users s.runs)
      (fun s a s' h hstep => h.serves (serves_step hstep)) (Served.init maxclient) h
  refine ⟨fun a t hstep id u e p hget hp => hserved.kept (serves_step hstep) hget hp,
    fun id fd message u e p hrequests hget hfind hversion => ?_, fun id u e p hget hp => ?_,
    fun id u hget hn => ?_⟩
  · exact ⟨_, rfl, msgData_cached hrequests hget hfind hversion⟩
  · exact ((hserved.sound id u hget).sends e p hp).1
  · have hsound := hserved.sound id u hget
    exact hsound.length_completed.trans (hsound.bound hn).le

end

/-- The user "u" has a connection, in which the session 0 has been answered. -/
def sampleRequest : List Action := [
  .login [117] [115, 101, 99, 114, 101, 116, 48, 48], .msgOpen 1 [], .msgData 1 sampleFirst,
  .msgData 1 [7, 0, 0, 0, 0], .handled ⟨0, 0, 1⟩ (.ok [8])]

/-- It is answered, and the response is kept. -/
theorem responses_kept_answered :
    ∃ s : State ℕ, run (State.step (sampleConf 128)) (.init 1024) sampleRequest = some s ∧
      s.Resends (sampleConf 128) ∧
      s.sent = [(1, .shakehands "200 OK"), (1, .response [0, 6, 8, 1, 0, 0, 0, 0])] ∧
      (s.users[0]?.map User.completed) = some [0] := by
  have hrun : run (State.step (sampleConf 128)) (.init 1024) sampleRequest = some _ := rfl
  exact ⟨_, hrun, responses_kept hrun, rfl, rfl⟩

/-- The session is used again: the response goes at once. -/
theorem response_dropped :
    ∃ s t : State ℕ, run (State.step (sampleConf 128)) (.init 1024) sampleRequest = some s ∧
      s.step (sampleConf 128) (.msgData 1 [7, 0, 0, 0, 0]) = some t ∧
      (s.users[0]?.map User.completed) = some [0] ∧ (t.users[0]?.map User.completed) = some [] ∧
      (t.users[0]?.map User.responded) = some 1 := by
  exact ⟨_, _, rfl, rfl, rfl, rfl, rfl⟩

end SkynetEureka.MsgServer
