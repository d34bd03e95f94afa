import SkynetEureka.Lib.Lists
import SkynetEureka.MsgServer.Server

/-!
# Handshakes are not replayed

A run is watched: which records are made, which sockets are opened, which handshakes are tried and
which record and index they are answered "200 OK" with, and which messages of which sockets
`request_handler` is called for (`Event`). What the tables have under a socket is what its last
handshake has left there (`Watched`), so that no other socket comes to `request_handler`.
-/

namespace SkynetEureka.MsgServer

open Lib Function

variable {ι : Type}

/-! ## What is watched -/

/-- What is seen of a step. -/
inductive Event (ι : Type) where
  /-- `server.login` makes a record -/
  | made (username secret : List UInt8)
  | opened (fd : ℕ)
  /-- a handshake, with the record and the index of the user if it is answered "200 OK" -/
  | attempt (fd : ℕ) (message : List UInt8) (accepted : Option (ℕ × ι))
  /-- `request_handler` is called for the record, with a message of the socket -/
  | request (fd id : ℕ) (message : List UInt8)

namespace Event

/-- The socket is opened, or tries a handshake. -/
def shakes (fd : ℕ) : Event ι → Bool
  | opened fd' => fd' = fd
  | attempt fd' _ _ => fd' = fd
  | _ => false

def isAttempt : Event ι → Bool
  | attempt _ _ _ => true
  | _ => false

/-- The index with which a handshake is accepted for the record -/
def index (id : ℕ) : Event ι → Option ι
  | attempt _ _ (some (id', idx)) => if id' = id then some idx else none
  | _ => none

/-- The name and the secret of a record that is made -/
def login : Event ι → Option (List UInt8 × List UInt8)
  | made username secret => some (username, secret)
  | _ => none

/-- The socket whose handshake is accepted -/
def welcome : Event ι → Option ℕ
  | attempt fd _ (some _) => some fd
  | _ => none

/-- A call of `request_handler` -/
def call : Event ι → Option (ℕ × List UInt8)
  | request _ id message => some (id, message)
  | _ => none

theorem of_index {e : Event ι} {id : ℕ} {idx : ι} (h : e.index id = some idx) :
    ∃ fd message, e = .attempt fd message (some (id, idx)) := by
  unfold index at h
  split at h
  · obtain ⟨rfl, heq⟩ := Option.ite_none_right_eq_some.mp h
    cases heq
    exact ⟨_, _, rfl⟩
  · cases h

end Event

/-- The last opening or handshake of a socket -/
def lastShake (fd : ℕ) (es : List (Event ι)) : Option (Event ι) :=
  (es.filter (Event.shakes fd)).getLast?

namespace State

/-- The sockets that have been sent "200 OK" -/
def welcomed (s : State ι) : List ℕ :=
  s.sent.filterMap fun p => if p.2 = .shakehands "200 OK" then some p.1 else none

/-- The record of the socket and its index, if the answer is "200 OK" -/
def answer (s s' : State ι) (fd : ℕ) : Option (ℕ × ι) :=
  if s'.welcomed = s.welcomed ++ [fd] then do
    let id ← s'.connection fd
    let u ← s'.users[id]?
    some (id, u.version)
  else none

/-- What is seen of a step -/
def events (s s' : State ι) : Action → List (Event ι)
  | .login username secret =>
    if s.userOnline username = none then [.made username secret] else []
  | .msgOpen fd _ =>
    if (s.gate.maxclient : ℤ) ≤ s.gate.clientNumber then [] else [.opened fd]
  | .msgData fd message =>
    if s.gate.client fd = some true then
      match s.handshake fd with
      | some _ => [.attempt fd message (s.answer s' fd)]
      | none => (s'.requests.drop s.requests.length).map fun r => .request fd r.1 r.2
    else []
  | _ => []

variable [LinearOrder ι] [Zero ι] (conf : Conf ι)

/-- A step, and what has been seen of the run -/
def watch (w : State ι × List (Event ι)) (a : Action) : Option (State ι × List (Event ι)) :=
  (w.1.step conf a).map fun s' => (s', w.2 ++ w.1.events s' a)

end State

/-- Any run can be watched. -/
theorem run_watch [LinearOrder ι] [Zero ι] {conf : Conf ι} {s s' : State ι} {as : List Action}
    (es : List (Event ι)) (h : run (State.step conf) s as = some s') :
    ∃ es', run (State.watch conf) (s, es) as = some (s', es') := by
  induction as generalizing s es with
  | nil =>
    cases h
    exact ⟨es, rfl⟩
  | cons a as ih =>
    obtain ⟨t, ht, hrun⟩ := run_cons_eq_some.mp h
    obtain ⟨es', hes'⟩ := ih (es ++ s.events t a) hrun
    refine ⟨es', run_cons_eq_some.mpr ⟨_, ?_, hes'⟩⟩
    unfold State.watch
    rw [ht]
    rfl

/-- The message is a handshake of the user for the index, with an HMAC of the text "username:index"
under the secret. -/
def Signed (conf : Conf ι) (username secret message : List UInt8) (idx : ι) : Prop :=
  ∃ index hmac v, matchShakehands message = some (username, index, hmac) ∧
    conf.tonumber index = some idx ∧ conf.b64decode hmac = some v ∧
    conf.hmacHash secret (username ++ 58 :: index) = some v

/-- What the tables have, in a state of a run that has been watched. -/
structure Watched [LinearOrder ι] (conf : Conf ι) (s : State ι) (es : List (Event ι)) : Prop where
  logins : es.filterMap Event.login = s.users.map fun u => (u.username, u.secret)
  welcomes : es.filterMap Event.welcome = s.welcomed
  calls : es.filterMap Event.call = s.requests
  online : ∀ username id, s.userOnline username = some id →
    ∃ u, s.users[id]? = some u ∧ u.username = username
  signed : ∀ fd message id idx, .attempt fd message (some (id, idx)) ∈ es →
    ∃ u, s.users[id]? = some u ∧ idx ≤ u.version ∧ Signed conf u.username u.secret message idx
  rising : ∀ id, (es.filterMap (Event.index id)).Pairwise (· < ·)
  pending : ∀ fd, s.handshake fd ≠ none → lastShake fd es = some (.opened fd)
  admitted : ∀ fd id, s.connection fd = some id →
    ∃ message idx, lastShake fd es = some (.attempt fd message (some (id, idx)))
  single : ∀ fd, (es.filter (Event.shakes fd)).IsChain fun e e' => ¬ (e.isAttempt ∧ e'.isAttempt)
  requested : ∀ n fd id text, es[n]? = some (.request fd id text) →
    ∃ message idx, lastShake fd (es.take n) = some (.attempt fd message (some (id, idx)))

/-! ## Lists of events -/

section events

variable {es : List (Event ι)} {e : Event ι} {fd : ℕ}

theorem filterMap_concat_of_eq_none {β : Type} {f : Event ι → Option β} (h : f e = none) :
    (es ++ [e]).filterMap f = es.filterMap f := by
  rw [List.filterMap_append, List.filterMap_cons_none h]
  exact List.append_nil _

theorem lastShake_concat :
    lastShake fd (es ++ [e]) = if e.shakes fd then some e else lastShake fd es := by
  unfold lastShake
  rw [List.filter_append]
  split_ifs with h
  · rw [List.filter_singleton, h]
    exact List.getLast?_concat
  · rw [List.filter_singleton, Bool.eq_false_iff.mpr h]
    simp

theorem lastShake_concat_of_shakes (h : e.shakes fd = true) :
    lastShake fd (es ++ [e]) = some e := by
  rw [lastShake_concat, if_pos h]

theorem lastShake_concat_of_not (h : e.shakes fd = false) :
    lastShake fd (es ++ [e]) = lastShake fd es := by
  rw [lastShake_concat, h]
  rfl

/-- An event after which no socket has tried two handshakes -/
theorem single_concat
    (h : (es.filter (Event.shakes fd)).IsChain fun e e' => ¬ (e.isAttempt ∧ e'.isAttempt))
    (he : e.shakes fd → e.isAttempt → ∀ e' ∈ lastShake fd es, e'.isAttempt = false) :
    ((es ++ [e]).filter (Event.shakes fd)).IsChain fun e e' => ¬ (e.isAttempt ∧ e'.isAttempt) := by
  rw [List.filter_append, List.filter_singleton]
  cases hshakes : e.shakes fd with
  | false => simpa using h
  | true =>
    apply List.isChain_append.mpr
    refine ⟨h, List.isChain_singleton e, ?_⟩
    intro e₁ h₁ e₂ h₂
    obtain rfl : e = e₂ := by simpa using h₂
    intro hboth
    have hnot := he hshakes hboth.2 e₁ h₁
    rw [hboth.1] at hnot
    cases hnot

/-- The calls of `request_handler` that were good before are good after an event. -/
theorem requested_concat
    (h : ∀ n fd id text, es[n]? = some (.request fd id text) →
      ∃ message idx, lastShake fd (es.take n) = some (.attempt fd message (some (id, idx))))
    (he : ∀ fd id text, e = .request fd id text →
      ∃ message idx, lastShake fd es = some (.attempt fd message (some (id, idx))))
    {n fd id : ℕ} {text : List UInt8} (hget : (es ++ [e])[n]? = some (.request fd id text)) :
    ∃ message idx,
      lastShake fd ((es ++ [e]).take n) = some (.attempt fd message (some (id, idx))) := by
  rcases getElem?_concat_cases hget with hold | ⟨hn, heq⟩
  · have hn := (List.getElem?_eq_some_iff.mp hold).1
    rw [List.take_append_of_le_length hn.le]
    exact h n fd id text hold
  · subst hn
    rw [List.take_left]
    exact he fd id text heq.symm

end events

/-! ## The steps that nothing is seen of -/

/-- What the handshake of a record uses, and what it changes -/
def User.pass (u : User ι) : List UInt8 × List UInt8 × ι := (u.username, u.secret, u.version)

section pass

variable (u : User ι)

@[simp] theorem User.pass_retire (n : ℕ) : (u.retire n).pass = u.pass := by
  unfold User.retire
  split_ifs
  · rfl
  · rfl

@[simp] theorem User.pass_finish (n e : ℕ) (sent : Bool) : (u.finish n e sent).pass = u.pass :=
  User.pass_retire _ n

@[simp] theorem User.pass_complete (n e : ℕ) (response : List UInt8) (sent : Bool) :
    (u.complete n e response sent).pass = u.pass := User.pass_finish _ n e sent

@[simp] theorem User.pass_request [DecidableEq ι] (n fd session : ℕ) :
    (u.request n fd session).1.pass = u.pass := by
  unfold User.request
  split
  · rfl
  · dsimp only
    split_ifs
    · split
      · rfl
      · rfl
    · split
      · rfl
      · exact User.pass_finish _ n _ true

end pass

/-- A record that is found is found when the records have the same pass. -/
theorem getElem?_of_pass {users users' : List (User ι)}
    (h : users'.map User.pass = users.map User.pass) {id : ℕ} {u : User ι}
    (hget : users[id]? = some u) : ∃ u', users'[id]? = some u' ∧ u'.pass = u.pass := by
  have hmap : (users'.map User.pass)[id]? = some u.pass := by
    rw [h, List.getElem?_map, hget]
    rfl
  rw [List.getElem?_map] at hmap
  obtain ⟨u', hu', heq⟩ := Option.map_eq_some_iff.mp hmap
  exact ⟨u', hu', heq⟩

theorem map_pass_set {users : List (User ι)} {id : ℕ} {u u' : User ι}
    (hget : users[id]? = some u) (hpass : u'.pass = u.pass) :
    (users.set id u').map User.pass = users.map User.pass := by
  have hmap : (users.map User.pass)[id]? = some u'.pass := by
    rw [List.getElem?_map, hget, hpass]
    rfl
  obtain ⟨hlt, heq⟩ := List.getElem?_eq_some_iff.mp hmap
  rw [List.map_set, ← heq, List.set_getElem_self]

theorem map_modify_of_eq {β : Type} {g : User ι → β} {f : User ι → User ι}
    (h : ∀ u, g (f u) = g u) (users : List (User ι)) (id : ℕ) :
    (users.modify id f).map g = users.map g := by
  apply List.ext_getElem?
  intro j
  rw [List.getElem?_map, List.getElem?_map, List.getElem?_modify]
  cases users[j]? with
  | none => rfl
  | some u =>
    by_cases hj : id = j
    · simp [hj, h]
    · simp [hj]

/-- A step that only takes from the tables -/
structure Quiet (s s' : State ι) : Prop where
  users : s'.users.map User.pass = s.users.map User.pass
  online : ∀ username id, s'.userOnline username = some id → s.userOnline username = some id
  handshake : ∀ fd, s'.handshake fd ≠ none → s.handshake fd ≠ none
  connection : ∀ fd id, s'.connection fd = some id → s.connection fd = some id
  requests : s'.requests = s.requests
  welcomed : s'.welcomed = s.welcomed

namespace Quiet

variable {s s' s'' : State ι}

theorem refl (s : State ι) : Quiet s s :=
  ⟨rfl, fun _ _ h => h, fun _ h => h, fun _ _ h => h, rfl, rfl⟩

theorem trans (h : Quiet s s') (h' : Quiet s' s'') : Quiet s s'' where
  users := h'.users.trans h.users
  online username id hid := h.online username id (h'.online username id hid)
  handshake fd hfd := h.handshake fd (h'.handshake fd hfd)
  connection fd id hid := h.connection fd id (h'.connection fd id hid)
  requests := h'.requests.trans h.requests
  welcomed := h'.welcomed.trans h.welcomed

theorem closeclient (fd : ℕ) : Quiet s (s.closeclient fd) :=
  ⟨rfl, fun _ _ h => h, fun _ h => h, fun _ _ h => h, rfl, rfl⟩

theorem closeFd (fd : ℕ) : Quiet s (s.closeFd fd) :=
  ⟨rfl, fun _ _ h => h, fun _ h => h, fun _ _ h => h, rfl, rfl⟩

theorem setUser {id : ℕ} {u u' : User ι} (hget : s.users[id]? = some u)
    (hpass : u'.pass = u.pass) : Quiet s (s.setUser id u') :=
  ⟨map_pass_set hget hpass, fun _ _ h => h, fun _ h => h, fun _ _ h => h, rfl, rfl⟩

/-- A table that loses an entry -/
theorem of_update_none {α β : Type} [DecidableEq α] {f : α → Option β} {a a' : α} {b : β}
    (h : update f a none a' = some b) : f a' = some b := by
  by_cases ha : a' = a
  · rw [ha, update_self] at h
    cases h
  · rwa [update_of_ne ha] at h

theorem shaken (fd : ℕ) : Quiet s { s with handshake := update s.handshake fd none } := by
  refine ⟨rfl, fun _ _ h => h, fun fd' hfd' => ?_, fun _ _ h => h, rfl, rfl⟩
  obtain ⟨addr, haddr⟩ := Option.ne_none_iff_exists'.mp hfd'
  show s.handshake fd' ≠ none
  rw [of_update_none haddr]
  exact nofun

/-- What is sent is not "200 OK". -/
theorem send {l : List (ℕ × Package)} (h : ∀ p ∈ l, p.2 ≠ .shakehands "200 OK") :
    Quiet s { s with sent := s.sent ++ l } := by
  refine ⟨rfl, fun _ _ h => h, fun _ h => h, fun _ _ h => h, rfl, ?_⟩
  show (s.sent ++ l).filterMap _ = s.welcomed
  rw [List.filterMap_append]
  have hnil : (l.filterMap fun p => if p.2 = .shakehands "200 OK" then some p.1 else none) = [] := by
    rw [List.filterMap_eq_nil_iff]
    exact fun p hp => if_neg (h p hp)
  rw [hnil]
  exact List.append_nil _

theorem logout (username : List UInt8) : Quiet s (s.logout username) := by
  unfold State.logout
  split
  · exact refl s
  dsimp only
  split
  · exact ⟨rfl, fun _ _ h => of_update_none h, fun _ h => h, fun _ _ h => h, rfl, rfl⟩
  · exact ⟨rfl, fun _ _ h => of_update_none h, fun _ h => h, fun _ _ h => of_update_none h, rfl, rfl⟩

theorem disconnect (conf : Conf ι) (fd : ℕ) : Quiet s (s.disconnect conf fd) := by
  unfold State.disconnect
  dsimp only
  split
  · exact (shaken fd).trans (closeFd fd)
  · rename_i id hconn
    have hlose : Quiet { s with handshake := update s.handshake fd none }
        { s with
          handshake := update s.handshake fd none
          users := s.users.modify id fun u => { u with fd := none }
          connection := update s.connection fd none } :=
      ⟨map_modify_of_eq (f := fun u => { u with fd := none }) (fun _ => rfl) s.users id,
        fun _ _ h => h, fun _ h => h, fun _ _ h => of_update_none h, rfl, rfl⟩
    have hlost := (shaken fd).trans hlose
    split_ifs
    · exact { hlost with }
    · exact hlost.trans (closeFd fd)

theorem handled (conf : Conf ι) {run : HandlerRun} {u : User ι}
    (hget : s.users[run.user]? = some u) (p : Entry ι) (outcome : Outcome) :
    Quiet s (s.handled conf run u p outcome) := by
  unfold State.handled
  split
  · split_ifs
    · exact refl s
    · exact closeclient run.fd
  · dsimp only
    refine (setUser hget (User.pass_complete ..)).trans (send ?_)
    intro p hp
    obtain ⟨fd, -, rfl⟩ := List.mem_map.mp hp
    exact nofun

end Quiet

section quiet

variable [LinearOrder ι] {conf : Conf ι} {s s' : State ι}

/-- What a message of a socket that has shaken hands does, up to its call of `request_handler` -/
theorem request_quiet (fd : ℕ) (message : List UInt8) :
    Quiet s (s.request conf fd message) ∨ ∃ id text, s.connection fd = some id ∧
      (s.request conf fd message).requests = s.requests ++ [(id, text)] ∧
      Quiet s { s.request conf fd message with requests := s.requests } := by
  unfold State.request
  split
  · exact .inl (.refl s)
  split
  · exact .inl (.refl s)
  rename_i id hconn _ u hget
  split_ifs
  · exact .inl (.closeclient fd)
  have hset := Quiet.setUser hget
    (User.pass_request u conf.expiredNumber fd (sessionOf message))
  dsimp only
  split
  · exact .inl (hset.trans (.closeclient fd))
  · exact .inr ⟨id, _, hconn, rfl, { hset with }⟩
  · exact .inl hset
  · refine .inl (hset.trans (.send ?_))
    intro p hp
    obtain rfl := List.mem_singleton.mp hp
    exact nofun

/-- A handshake that succeeds is for a user that is online, with a new index. -/
theorem doAuth_signed {message : List UInt8} {id : ℕ} {idx : ι}
    (h : s.doAuth conf message = .ok (id, idx)) :
    ∃ username u, s.userOnline username = some id ∧ s.users[id]? = some u ∧ u.version < idx ∧
      Signed conf username u.secret message idx := by
  unfold State.doAuth at h
  split at h
  · cases h
  rename_i username index hmac hmatch
  split at h
  · cases h
  rename_i honline
  split at h
  · rename_i u idx' hmac' hget hindex hdecode
    split_ifs at h with hidx
    split at h
    · cases h
    · rename_i v hhash
      split_ifs at h with hv
      cases h
      have heq : v = hmac' := not_not.mp hv
      subst heq
      exact ⟨username, u, honline, hget, not_le.mp hidx, index, hmac, v, hmatch, hindex, hdecode,
        hhash⟩
  · cases h

theorem doAuth_refused {message : List UInt8} {result : String}
    (h : s.doAuth conf message = .error result) : result ≠ "200 OK" := by
  unfold State.doAuth at h
  split at h
  · cases h
    decide
  split at h
  · cases h
    decide
  split at h
  · split_ifs at h
    · cases h
      decide
    split at h
    · cases h
      decide
    · split_ifs at h
      cases h
      decide
  · cases h
    decide

/-- A handshake that fails leaves no way to `request_handler`. -/
theorem auth_refused {fd : ℕ} {addr message : List UInt8} {result : String}
    (h : s.doAuth conf message = .error result) : Quiet s (s.auth conf fd addr message) := by
  unfold State.auth
  rw [h]
  refine Quiet.trans (.send ?_) (.closeclient fd)
  intro p hp
  obtain rfl := List.mem_singleton.mp hp
  intro heq
  cases heq
  exact doAuth_refused h rfl

/-- `auth` does not use `handshake`. -/
theorem auth_shaken (fd : ℕ) (addr message : List UInt8) :
    { s.auth conf fd addr message with handshake := update s.handshake fd none } =
      { s with handshake := update s.handshake fd none }.auth conf fd addr message := by
  have hok : State.doAuth conf { s with handshake := update s.handshake fd none } message =
      s.doAuth conf message := rfl
  unfold State.auth
  rw [hok]
  cases s.doAuth conf message with
  | ok r => rfl
  | error result => rfl

end quiet

/-! ## The steps that something is seen of -/

namespace Watched

variable [LinearOrder ι] {conf : Conf ι} {s s' : State ι} {es : List (Event ι)} {fd id : ℕ}

theorem quiet (h : Watched conf s es) (hq : Quiet s s') : Watched conf s' es where
  logins := by
    rw [h.logins]
    have hpass : ∀ users : List (User ι), (users.map fun u => (u.username, u.secret)) =
        (users.map User.pass).map fun p => (p.1, p.2.1) := by
      intro users
      rw [List.map_map]
      rfl
    rw [hpass, hpass, hq.users]
  welcomes := h.welcomes.trans hq.welcomed.symm
  calls := h.calls.trans hq.requests.symm
  online username id hid := by
    obtain ⟨u, hget, hname⟩ := h.online username id (hq.online username id hid)
    obtain ⟨u', hget', hpass⟩ := getElem?_of_pass hq.users hget
    exact ⟨u', hget', (Prod.mk.inj hpass).1.trans hname⟩
  signed fd message id idx hmem := by
    obtain ⟨u, hget, hle, hsigned⟩ := h.signed fd message id idx hmem
    obtain ⟨u', hget', hpass⟩ := getElem?_of_pass hq.users hget
    obtain ⟨husername, hpass⟩ := Prod.mk.inj hpass
    obtain ⟨hsecret, hversion⟩ := Prod.mk.inj hpass
    rw [← husername, ← hsecret] at hsigned
    exact ⟨u', hget', hle.trans_eq hversion.symm, hsigned⟩
  rising := h.rising
  pending fd hfd := h.pending fd (hq.handshake fd hfd)
  admitted fd id hid := h.admitted fd id (hq.connection fd id hid)
  single := h.single
  requested := h.requested

theorem made [Zero ι] (h : Watched conf s es) (username secret : List UInt8) :
    Watched conf (s.login username secret) (es ++ s.events s' (.login username secret)) := by
  unfold State.login State.events
  dsimp only
  split_ifs with hnone
  · refine { h with logins := ?_, welcomes := ?_, calls := ?_, online := ?_, signed := ?_,
                    rising := ?_, pending := ?_, admitted := ?_, single := ?_, requested := ?_ }
    · rw [List.filterMap_append, List.map_append, h.logins]
      rfl
    · rw [filterMap_concat_of_eq_none rfl, h.welcomes]
      rfl
    · rw [filterMap_concat_of_eq_none rfl, h.calls]
    · intro username' id hid
      change update s.userOnline username (some s.users.length) username' = some id at hid
      by_cases hname : username' = username
      · subst hname
        rw [update_self] at hid
        obtain rfl := Option.some.inj hid
        exact ⟨_, List.getElem?_concat_length, rfl⟩
      · rw [update_of_ne hname] at hid
        obtain ⟨u, hget, heq⟩ := h.online username' id hid
        exact ⟨u, getElem?_concat_of_eq_some hget, heq⟩
    · intro fd message id idx hmem
      have hmem' : .attempt fd message (some (id, idx)) ∈ es := by simpa using hmem
      obtain ⟨u, hget, hsigned⟩ := h.signed fd message id idx hmem'
      exact ⟨u, getElem?_concat_of_eq_some hget, hsigned⟩
    · intro id
      rw [filterMap_concat_of_eq_none rfl]
      exact h.rising id
    · intro fd hfd
      rw [lastShake_concat_of_not rfl]
      exact h.pending fd hfd
    · intro fd id hid
      rw [lastShake_concat_of_not rfl]
      exact h.admitted fd id hid
    · exact fun fd => single_concat (h.single fd) fun hshakes => (Bool.false_ne_true hshakes).elim
    · intro n fd id text hget
      refine requested_concat h.requested (fun _ _ _ heq => ?_) hget
      cases heq
  · rw [List.append_nil]
    exact h

/-- `request_handler` is called for the record of the socket. -/
theorem called {text : List UInt8} (h : Watched conf s es) (hconn : s.connection fd = some id)
    (hrequests : s'.requests = s.requests ++ [(id, text)])
    (hq : Quiet s { s' with requests := s.requests }) :
    Watched conf s' (es ++ [.request fd id text]) := by
  have hkept := h.quiet hq
  refine { hkept with logins := ?_, welcomes := ?_, calls := ?_, signed := ?_, rising := ?_,
                      pending := ?_, admitted := ?_, single := ?_, requested := ?_ }
  · rw [filterMap_concat_of_eq_none rfl]
    exact hkept.logins
  · rw [filterMap_concat_of_eq_none rfl]
    exact hkept.welcomes
  · rw [List.filterMap_append, h.calls, hrequests]
    rfl
  · intro fd message id idx hmem
    exact hkept.signed fd message id idx (by simpa using hmem)
  · intro id
    rw [filterMap_concat_of_eq_none rfl]
    exact h.rising id
  · intro fd hfd
    rw [lastShake_concat_of_not rfl]
    exact hkept.pending fd hfd
  · intro fd id hid
    rw [lastShake_concat_of_not rfl]
    exact hkept.admitted fd id hid
  · exact fun fd => single_concat (h.single fd) fun hshakes => (Bool.false_ne_true hshakes).elim
  · intro n fd id text hget
    refine requested_concat h.requested (fun fd id text heq => ?_) hget
    cases heq
    exact h.admitted _ _ hconn

/-- An event that shows in the tables of the sockets only -/
theorem concat {e : Event ι} (h : Watched conf s es) (hlogin : e.login = none)
    (hwelcome : e.welcome = none) (hcall : e.call = none) (hindex : ∀ id, e.index id = none)
    (hattempt : ∀ fd, e.shakes fd → e.isAttempt → ∀ e' ∈ lastShake fd es, e'.isAttempt = false)
    (husers : s'.users = s.users) (honline : s'.userOnline = s.userOnline)
    (hrequests : s'.requests = s.requests) (hwelcomed : s'.welcomed = s.welcomed)
    (hpending : ∀ fd, s'.handshake fd ≠ none → lastShake fd (es ++ [e]) = some (.opened fd))
    (hadmitted : ∀ fd id, s'.connection fd = some id → ∃ message idx,
      lastShake fd (es ++ [e]) = some (.attempt fd message (some (id, idx)))) :
    Watched conf s' (es ++ [e]) where
  logins := by rw [filterMap_concat_of_eq_none hlogin, h.logins, husers]
  welcomes := by rw [filterMap_concat_of_eq_none hwelcome, h.welcomes, hwelcomed]
  calls := by rw [filterMap_concat_of_eq_none hcall, h.calls, hrequests]
  online username id hid := by
    rw [honline] at hid
    rw [husers]
    exact h.online username id hid
  signed fd message id idx hmem := by
    rw [husers]
    rcases List.mem_append.mp hmem with hmem | hmem
    · exact h.signed fd message id idx hmem
    · obtain rfl := List.mem_singleton.mp hmem
      cases hwelcome
  rising id := by
    rw [filterMap_concat_of_eq_none (hindex id)]
    exact h.rising id
  pending := hpending
  admitted := hadmitted
  single fd := single_concat (h.single fd) (hattempt fd)
  requested n fd id text hget := by
    refine requested_concat h.requested (fun fd id text heq => ?_) hget
    rw [heq] at hcall
    cases hcall

/-- A socket is opened that `connection` does not have. -/
theorem opened (h : Watched conf s es) (hconn : s.connection fd = none) (addr : List UInt8) :
    Watched conf (s.msgOpen fd addr) (es ++ s.events s' (.msgOpen fd addr)) := by
  unfold State.msgOpen State.events
  dsimp only
  split_ifs
  · rw [List.append_nil]
    exact { h with }
  refine h.concat (e := .opened fd) rfl rfl rfl (fun _ => rfl) ?_ rfl rfl rfl rfl ?_ ?_
  · exact fun _ _ hattempt => (Bool.false_ne_true hattempt).elim
  · intro fd' hfd'
    change update s.handshake fd (some addr) fd' ≠ none at hfd'
    by_cases heq : fd' = fd
    · subst heq
      exact lastShake_concat_of_shakes (decide_eq_true rfl)
    · rw [update_of_ne heq] at hfd'
      rw [lastShake_concat, if_neg (by simpa [Event.shakes] using Ne.symm heq)]
      exact h.pending fd' hfd'
  · intro fd' id hid
    have heq : fd ≠ fd' := by
      intro heq
      subst heq
      cases hconn.symm.trans hid
    rw [lastShake_concat, if_neg (by simpa [Event.shakes] using heq)]
    exact h.admitted fd' id hid

/-- A handshake that is not accepted: the socket is in no table. -/
theorem refused {message : List UInt8} (h : Watched conf s es)
    (hopened : lastShake fd es = some (.opened fd)) (hhandshake : s.handshake fd = none) :
    Watched conf s (es ++ [.attempt fd message none]) := by
  refine h.concat (e := .attempt fd message none) rfl rfl rfl (fun _ => rfl) ?_ rfl rfl rfl rfl ?_ ?_
  · intro fd' hshakes _ e he
    obtain rfl : fd = fd' := of_decide_eq_true hshakes
    cases hopened.symm.trans he
    rfl
  · intro fd' hfd'
    have heq : fd ≠ fd' := by
      intro heq
      subst heq
      exact hfd' hhandshake
    rw [lastShake_concat, if_neg (by simpa [Event.shakes] using heq)]
    exact h.pending fd' hfd'
  · intro fd' id hid
    have heq : fd ≠ fd' := by
      intro heq
      subst heq
      obtain ⟨message, idx, hlast⟩ := h.admitted fd id hid
      cases hopened.symm.trans hlast
    rw [lastShake_concat, if_neg (by simpa [Event.shakes] using heq)]
    exact h.admitted fd' id hid

/-- A handshake that is accepted: the record has the index, and `connection` the record. -/
theorem accepted {message : List UInt8} {idx : ι} {f : User ι → User ι} (h : Watched conf s es)
    (hopened : lastShake fd es = some (.opened fd)) (hhandshake : s.handshake fd = none)
    (hok : s.doAuth conf message = .ok (id, idx)) (husername : ∀ u, (f u).username = u.username)
    (hsecret : ∀ u, (f u).secret = u.secret) (hversion : ∀ u, (f u).version = idx)
    (husers : s'.users = s.users.modify id f) (honline : s'.userOnline = s.userOnline)
    (hshakes : s'.handshake = s.handshake)
    (hconnection : s'.connection = update s.connection fd (some id))
    (hrequests : s'.requests = s.requests) (hwelcomed : s'.welcomed = s.welcomed ++ [fd]) :
    Watched conf s' (es ++ [.attempt fd message (some (id, idx))]) := by
  obtain ⟨username, u, hid, hget, hlt, hsigned⟩ := doAuth_signed hok
  obtain ⟨v, hv, hname⟩ := h.online username id hid
  obtain rfl := Option.some.inj (hget.symm.trans hv)
  have hkeep : ∀ (id' : ℕ) (u : User ι), s.users[id']? = some u →
      ∃ u', s'.users[id']? = some u' ∧ u'.username = u.username ∧ u'.secret = u.secret ∧
        (id' = id → u'.version = idx) ∧ (id' ≠ id → u'.version = u.version) := by
    intro id' u hu
    rw [husers, List.getElem?_modify, hu]
    by_cases heq : id = id'
    · exact ⟨f u, by simp [heq], husername u, hsecret u, fun _ => hversion u,
        fun hne => (hne heq.symm).elim⟩
    · exact ⟨u, by simp [heq], rfl, rfl, fun h' => (heq h'.symm).elim, fun _ => rfl⟩
  refine ⟨?_, ?_, ?_, ?_, ?_, ?_, ?_, ?_, ?_, ?_⟩
  · rw [filterMap_concat_of_eq_none rfl, h.logins, husers]
    refine (map_modify_of_eq (fun u => ?_) s.users id).symm
    rw [husername, hsecret]
  · rw [List.filterMap_append, h.welcomes, hwelcomed]
    rfl
  · rw [filterMap_concat_of_eq_none rfl, h.calls, hrequests]
  · intro username' id' hid'
    rw [honline] at hid'
    obtain ⟨u, hu, hname'⟩ := h.online username' id' hid'
    obtain ⟨u', hu', heq, -⟩ := hkeep id' u hu
    exact ⟨u', hu', heq.trans hname'⟩
  · intro fd' message' id' idx' hmem
    rcases List.mem_append.mp hmem with hmem | hmem
    · obtain ⟨u', hu', hle, hold⟩ := h.signed fd' message' id' idx' hmem
      obtain ⟨u'', hu'', hsame, hsame', heq, hne⟩ := hkeep id' u' hu'
      refine ⟨u'', hu'', ?_, by rwa [hsame, hsame']⟩
      by_cases hid' : id' = id
      · subst hid'
        obtain rfl := Option.some.inj (hget.symm.trans hu')
        rw [heq rfl]
        exact hle.trans hlt.le
      · rw [hne hid']
        exact hle
    · cases List.mem_singleton.mp hmem
      obtain ⟨u', hu', hsame, hsame', heq, -⟩ := hkeep id u hget
      refine ⟨u', hu', (heq rfl).ge, ?_⟩
      rw [hsame, hsame', hname]
      exact hsigned
  · intro id'
    by_cases hid' : id = id'
    · subst hid'
      have hone : [Event.attempt fd message (some (id, idx))].filterMap (Event.index id) = [idx] := by
        simp [Event.index]
      rw [List.filterMap_append, hone]
      refine List.pairwise_append.mpr ⟨h.rising id, List.pairwise_singleton .., ?_⟩
      intro a ha b hb
      obtain rfl := List.mem_singleton.mp hb
      obtain ⟨e, he, hindex⟩ := List.mem_filterMap.mp ha
      -- an earlier index is at most the version of the record
      obtain ⟨fd', message', rfl⟩ := Event.of_index hindex
      obtain ⟨u', hu', hle, -⟩ := h.signed fd' message' id a he
      obtain rfl := Option.some.inj (hget.symm.trans hu')
      exact hle.trans_lt hlt
    · rw [filterMap_concat_of_eq_none (if_neg hid')]
      exact h.rising id'
  · intro fd' hfd'
    rw [hshakes] at hfd'
    have heq : fd ≠ fd' := by
      intro heq
      subst heq
      exact hfd' hhandshake
    rw [lastShake_concat, if_neg (by simpa [Event.shakes] using heq)]
    exact h.pending fd' hfd'
  · intro fd' id' hid'
    rw [hconnection] at hid'
    by_cases heq : fd' = fd
    · subst heq
      rw [update_self] at hid'
      obtain rfl := Option.some.inj hid'
      exact ⟨message, idx, lastShake_concat_of_shakes (decide_eq_true rfl)⟩
    · rw [update_of_ne heq] at hid'
      rw [lastShake_concat, if_neg (by simpa [Event.shakes] using Ne.symm heq)]
      exact h.admitted fd' id' hid'
  · intro fd'
    refine single_concat (h.single fd') fun hshakes _ e he => ?_
    obtain rfl : fd = fd' := of_decide_eq_true hshakes
    cases hopened.symm.trans he
    rfl
  · intro n fd id text hget
    refine requested_concat h.requested (fun _ _ _ heq => ?_) hget
    cases heq

theorem init (maxclient : ℕ) : Watched conf (State.init maxclient : State ι) [] where
  logins := rfl
  welcomes := rfl
  calls := rfl
  online := nofun
  signed := nofun
  rising _ := .nil
  pending _ hne := absurd rfl hne
  admitted := nofun
  single _ := .nil
  requested := nofun

/-- A socket shakes hands. -/
theorem auth {addr message : List UInt8} (h : Watched conf s es)
    (hopened : lastShake fd es = some (.opened fd)) (hhandshake : s.handshake fd = none)
    (hs' : s' = s.auth conf fd addr message) :
    Watched conf s' (es ++ [.attempt fd message (s.answer s' fd)]) := by
  cases hauth : s.doAuth conf message with
  | error result =>
    have hq : Quiet s s' := hs' ▸ auth_refused hauth
    have hnone : s.answer s' fd = none := by
      refine if_neg ?_
      rw [hq.welcomed]
      exact fun heq => List.cons_ne_nil _ _ (List.self_eq_append_right.mp heq)
    have hshut : s'.handshake fd = none := by
      by_contra hne
      exact hq.handshake fd hne hhandshake
    rw [hnone]
    exact (h.quiet hq).refused hopened hshut
  | ok r =>
    obtain ⟨id, idx⟩ := r
    obtain ⟨username, u, -, hget, -⟩ := doAuth_signed hauth
    unfold State.auth at hs'
    rw [hauth] at hs'
    dsimp only at hs'
    have hwelcomed : s'.welcomed = s.welcomed ++ [fd] := by
      unfold State.welcomed
      rw [hs', List.filterMap_append]
      rfl
    have hsome : s.answer s' fd = some (id, idx) := by
      unfold State.answer
      rw [if_pos hwelcomed, hs']
      dsimp only
      rw [update_self, Option.bind_eq_bind, Option.bind_some, List.getElem?_modify_eq, hget]
      rfl
    rw [hsome]
    subst hs'
    exact h.accepted (f := fun u => { u with version := idx, fd := some fd, ip := some addr })
      hopened hhandshake hauth (fun _ => rfl) (fun _ => rfl) (fun _ => rfl) rfl rfl rfl rfl rfl
      hwelcomed

theorem msgData (h : Watched conf s es) (message : List UInt8) :
    Watched conf (s.msgData conf fd message)
      (es ++ s.events (s.msgData conf fd message) (.msgData fd message)) := by
  unfold State.events
  dsimp only
  split_ifs with hclient
  · cases hhandshake : s.handshake fd with
    | some addr =>
      have hdata : s.msgData conf fd message =
          { s with handshake := update s.handshake fd none }.auth conf fd addr message := by
        unfold State.msgData
        rw [if_pos hclient, hhandshake]
        dsimp only
        exact auth_shaken fd addr message
      exact (h.quiet (.shaken fd)).auth (h.pending fd (hhandshake ▸ nofun)) (update_self ..) hdata
    | none =>
      have hdata : s.msgData conf fd message = s.request conf fd message := by
        unfold State.msgData
        rw [if_pos hclient, hhandshake]
      rw [hdata]
      rcases request_quiet (s := s) fd message with hq | ⟨id, text, hconn, heq, hq⟩
      · dsimp only
        rw [hq.requests, List.drop_length]
        exact (List.append_nil es).symm ▸ h.quiet hq
      · dsimp only
        rw [heq, List.drop_left]
        exact h.called hconn heq hq
  · unfold State.msgData
    rw [if_neg hclient, List.append_nil]
    exact h

theorem step [Zero ι] {a : Action} (h : Watched conf s es) (hstep : s.step conf a = some s') :
    Watched conf s' (es ++ s.events s' a) := by
  cases a with
  | login username secret =>
    cases hstep
    exact h.made username secret
  | logout username =>
    cases hstep
    exact (List.append_nil es).symm ▸ h.quiet (.logout username)
  | msgOpen fd addr =>
    rw [State.step] at hstep
    split_ifs at hstep with hfree
    cases hstep
    exact h.opened hfree.1 addr
  | msgData fd message =>
    cases hstep
    exact h.msgData message
  | msgClose fd =>
    cases hstep
    exact (List.append_nil es).symm ▸ h.quiet (.disconnect conf fd)
  | msgError fd =>
    cases hstep
    exact (List.append_nil es).symm ▸ h.quiet (.disconnect conf fd)
  | handled run outcome =>
    obtain ⟨u, hget, hstep⟩ := Option.bind_eq_some_iff.mp hstep
    obtain ⟨p, -, hstep⟩ := Option.bind_eq_some_iff.mp hstep
    split_ifs at hstep
    cases hstep
    have herase : Watched conf { s with runs := s.runs.erase run } es := { h with }
    have hhandled := Quiet.handled (s := { s with runs := s.runs.erase run }) conf hget p outcome
    exact (List.append_nil es).symm ▸ herase.quiet hhandled
  | disconnected fd ok =>
    rw [State.step] at hstep
    have herase : Watched conf { s with closing := s.closing.erase fd } es := { h with }
    split_ifs at hstep with hmem
    · cases hstep
      exact (List.append_nil es).symm ▸ herase.quiet (.closeFd fd)
    · cases hstep
      exact (List.append_nil es).symm ▸ herase

end Watched

/-- **Handshakes are not replayed.** Every run can be watched. All the sockets that are sent "200
OK", and all the calls of `request_handler`, are seen. The handshakes that are accepted for a record
have increasing indexes, and each has an HMAC of the very text "username:index" under the secret of
the record. A socket tries one handshake after it is opened, and when `request_handler` is called
for a message, the last that its socket has done is a handshake that was accepted for the record. -/
theorem handshakes_not_replayed [LinearOrder ι] [Zero ι] {conf : Conf ι} {maxclient : ℕ}
    {as : List Action} {s : State ι} (h : run (State.step conf) (.init maxclient) as = some s) :
    ∃ es, run (State.watch conf) (.init maxclient, []) as = some (s, es) ∧
      es.filterMap Event.welcome = s.welcomed ∧ es.filterMap Event.call = s.requests ∧
      (∀ id, (es.filterMap (Event.index id)).Pairwise (· < ·)) ∧
      (∀ fd message id idx, .attempt fd message (some (id, idx)) ∈ es →
        ∃ username secret, (es.filterMap Event.login)[id]? = some (username, secret) ∧
          Signed conf username secret message idx) ∧
      (∀ fd, (es.filter (Event.shakes fd)).IsChain fun e e' => ¬ (e.isAttempt ∧ e'.isAttempt)) ∧
      ∀ n fd id text, es[n]? = some (.request fd id text) → ∃ message idx,
        lastShake fd (es.take n) = some (.attempt fd message (some (id, idx))) := by
  obtain ⟨es, hes⟩ := run_watch [] h
  have hstep : ∀ (w : State ι × List (Event ι)) (a : Action) (w' : State ι × List (Event ι)),
      Watched conf w.1 w.2 → State.watch conf w a = some w' → Watched conf w'.1 w'.2 := by
    intro w a w' hw hstep
    obtain ⟨s', hs', rfl⟩ := Option.map_eq_some_iff.mp hstep
    exact hw.step hs'
  have hkept := fun hinit => run_invariant_of_step hstep hinit hes
  have hwatched : Watched conf s es := hkept (Watched.init maxclient)
  refine ⟨es, hes, hwatched.welcomes, hwatched.calls, hwatched.rising, ?_, hwatched.single,
    hwatched.requested⟩
  intro fd message id idx hmem
  obtain ⟨u, hget, -, hsigned⟩ := hwatched.signed fd message id idx hmem
  refine ⟨u.username, u.secret, ?_, hsigned⟩
  rw [hwatched.logins, List.getElem?_map, hget]
  rfl

/-- A user logs in and shakes hands, and sends a request with the session 0. -/
theorem handshakes_not_replayed_request :
    ∃ es : List (Event ℕ), es[3]? = some (.request 1 0 [7]) ∧
      ∃ message idx, lastShake 1 (es.take 3) = some (.attempt 1 message (some (0, idx))) := by
  obtain ⟨es, hes, -, -, -, -, -, hrequest⟩ :=
    @handshakes_not_replayed ℕ _ _ (sampleConf 128) 1024 [
      .login [117] [115, 101, 99, 114, 101, 116, 48, 48], .msgOpen 1 [], .msgData 1 sampleFirst,
      .msgData 1 [7, 0, 0, 0, 0]] _ rfl
  cases hes
  refine ⟨_, ?_, hrequest 3 1 0 [7] ?_⟩
  · rfl
  · rfl

end SkynetEureka.MsgServer
