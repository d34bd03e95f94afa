import SkynetEureka.Lib.Lists
import SkynetEureka.MsgServer.Server

/-!
# After the logout

When a user has one socket at a time, `connection` has the record of a user under its socket only
(`Linked`), and `server.logout` leaves the record in no table (`logged_out`). `do_auth` does not see
to this: the socket that the record has had before stays in `connection`.
-/

namespace SkynetEureka.MsgServer

open Lib Function

variable {ι : Type}

section

variable [LinearOrder ι] [Zero ι]

/-- A handshake succeeds for a user that has no socket. -/
def State.Alone (conf : Conf ι) (s : State ι) : Action → Prop
  | .msgData fd message =>
    s.gate.client fd = some true → s.handshake fd ≠ none →
      match s.doAuth conf message with
      | .ok (id, _) => ∀ u ∈ s.users[id]?, u.fd = none
      | .error _ => True
  | _ => True

instance (conf : Conf ι) (s : State ι) : (a : Action) → Decidable (s.Alone conf a)
  | .msgData fd message =>
    haveI : Decidable (match s.doAuth conf message with
        | .ok (id, _) => ∀ u ∈ s.users[id]?, u.fd = none
        | .error _ => True) :=
      match s.doAuth conf message with
      | .ok (id, _) => inferInstanceAs (Decidable (∀ u ∈ s.users[id]?, u.fd = none))
      | .error _ => inferInstanceAs (Decidable True)
    inferInstanceAs (Decidable (s.gate.client fd = some true → s.handshake fd ≠ none → _))
  | .login _ _ | .logout _ | .msgOpen _ _ | .msgClose _ | .msgError _ | .handled _ _
  | .disconnected _ _ => inferInstanceAs (Decidable True)

end

/-- The tables agree. -/
structure Linked (s : State ι) : Prop where
  linked : ∀ fd id, s.connection fd = some id → ∃ u, s.users[id]? = some u ∧ u.fd = some fd
  current : ∀ username id u fd, s.userOnline username = some id → s.users[id]? = some u →
    u.fd = some fd → s.connection fd = some id
  online : ∀ username id, s.userOnline username = some id →
    ∃ u, s.users[id]? = some u ∧ u.username = username
  fresh : ∀ fd, s.handshake fd ≠ none → s.connection fd = none
  opened : ∀ fd, s.connection fd ≠ none → s.gate.client fd ≠ none
  asked : ∀ fd, s.gate.client fd = some false → fd ∈ s.gate.closes
  closing : ∀ fd ∈ s.closing, s.connection fd = none ∧ s.handshake fd = none

/-! ## The gate -/

namespace Gate

variable {g : Gate} {fd fd' : ℕ}

theorem closeclient_eq_none : (g.closeclient fd).client fd' = none ↔ g.client fd' = none := by
  unfold closeclient
  split_ifs with h
  · show update g.client fd (some false) fd' = none ↔ _
    by_cases hfd : fd' = fd
    · subst hfd
      rw [update_self, h]
      exact ⟨nofun, nofun⟩
    · rw [update_of_ne hfd]
  · rfl

/-- A client that has not been closed has been asked to. -/
theorem closeclient_self (h : g.client fd ≠ none) :
    (g.closeclient fd).client fd = some false := by
  unfold closeclient
  split_ifs with htrue
  · exact update_self ..
  · cases hclient : g.client fd with
    | none => exact absurd hclient h
    | some b =>
      cases b with
      | false => rfl
      | true => exact absurd hclient htrue

theorem closeclient_asked (h : ∀ fd, g.client fd = some false → fd ∈ g.closes) :
    (g.closeclient fd).client fd' = some false → fd' ∈ (g.closeclient fd).closes := by
  unfold closeclient
  split_ifs
  · show update g.client fd (some false) fd' = some false → fd' ∈ g.closes ++ [fd]
    rw [List.mem_append, List.mem_singleton]
    by_cases hfd : fd' = fd
    · exact fun _ => .inr hfd
    · rw [update_of_ne hfd]
      exact fun hclient => .inl (h fd' hclient)
  · exact h fd'

theorem closeFd_of_ne (h : fd' ≠ fd) : (g.closeFd fd).client fd' = g.client fd' := by
  unfold closeFd
  split
  · rfl
  · exact update_of_ne h ..

theorem closeFd_asked (h : ∀ fd, g.client fd = some false → fd ∈ g.closes) :
    (g.closeFd fd).client fd' = some false → fd' ∈ (g.closeFd fd).closes := by
  unfold closeFd
  split
  · exact h fd'
  · show update g.client fd none fd' = some false → fd' ∈ g.closes
    by_cases hfd : fd' = fd
    · subst hfd
      rw [update_self]
      exact nofun
    · rw [update_of_ne hfd]
      exact h fd'

end Gate

/-! ## The steps keep the tables linked -/

section

variable {s s' : State ι}

namespace Linked

theorem closeclient (h : Linked s) (fd : ℕ) : Linked (s.closeclient fd) where
  linked := h.linked
  current := h.current
  online := h.online
  fresh := h.fresh
  opened fd' hfd' := fun hnone => h.opened fd' hfd' (Gate.closeclient_eq_none.mp hnone)
  asked _ := Gate.closeclient_asked h.asked
  closing := h.closing

theorem closeFd (h : Linked s) {fd : ℕ} (hfd : s.connection fd = none) :
    Linked (s.closeFd fd) where
  linked := h.linked
  current := h.current
  online := h.online
  fresh := h.fresh
  opened fd' hfd' := by
    have hne : fd' ≠ fd := fun heq => hfd' (heq ▸ hfd)
    show (s.gate.closeFd fd).client fd' ≠ none
    rw [Gate.closeFd_of_ne hne]
    exact h.opened fd' hfd'
  asked _ := Gate.closeFd_asked h.asked
  closing := h.closing

/-- A record changes, but not its socket and not its name. -/
theorem setUser (h : Linked s) {id : ℕ} {u u' : User ι} (hget : s.users[id]? = some u)
    (hlogin : u'.login = u.login) : Linked (s.setUser id u') := by
  obtain ⟨husername, hlogin⟩ := Prod.mk.inj hlogin
  obtain ⟨hfd, -⟩ := Prod.mk.inj hlogin
  have hlt := (List.getElem?_eq_some_iff.mp hget).1
  have hset : ∀ (id' : ℕ) (v : User ι), s.users[id']? = some v → ∃ v' : User ι,
      (s.users.set id u')[id']? = some v' ∧ v'.fd = v.fd ∧ v'.username = v.username := by
    intro id' v hv
    by_cases hid : id' = id
    · subst hid
      obtain rfl := Option.some.inj (hget.symm.trans hv)
      exact ⟨u', List.getElem?_set_self hlt, hfd, husername⟩
    · exact ⟨v, (List.getElem?_set_ne (Ne.symm hid)).trans hv, rfl, rfl⟩
  refine { h with linked := fun fd id' hconn => ?_, current := ?_, online := ?_ }
  · obtain ⟨v, hv, hvfd⟩ := h.linked fd id' hconn
    obtain ⟨v', hv', heq, -⟩ := hset id' v hv
    exact ⟨v', hv', heq.trans hvfd⟩
  · intro username id' v' fd honline hv' hvfd
    obtain ⟨v, hv, -⟩ := h.online username id' honline
    obtain ⟨w, hw, heq, -⟩ := hset id' v hv
    obtain rfl := Option.some.inj (hv'.symm.trans hw)
    exact h.current username id' v fd honline hv (heq.symm.trans hvfd)
  · intro username id' honline
    obtain ⟨v, hv, hname⟩ := h.online username id' honline
    obtain ⟨v', hv', -, heq⟩ := hset id' v hv
    exact ⟨v', hv', heq.trans hname⟩

theorem login [Zero ι] (h : Linked s) (username secret : List UInt8) :
    Linked (s.login username secret) := by
  unfold State.login
  split_ifs with hnone
  · refine { h with linked := fun fd id hconn => ?_, current := ?_, online := ?_ }
    · obtain ⟨u, hu, hfd⟩ := h.linked fd id hconn
      exact ⟨u, getElem?_concat_of_eq_some hu, hfd⟩
    · intro username' id u fd honline hu hfd
      change update s.userOnline username (some s.users.length) username' = some id at honline
      change (s.users ++ [_])[id]? = some u at hu
      by_cases hname : username' = username
      · subst hname
        rw [update_self] at honline
        obtain rfl := Option.some.inj honline
        rw [List.getElem?_concat_length] at hu
        obtain rfl := Option.some.inj hu
        cases hfd
      · rw [update_of_ne hname] at honline
        obtain ⟨v, hv, -⟩ := h.online username' id honline
        obtain rfl := Option.some.inj ((getElem?_concat_of_eq_some hv).symm.trans hu)
        exact h.current username' id v fd honline hv hfd
    · intro username' id honline
      change update s.userOnline username (some s.users.length) username' = some id at honline
      show ∃ u, (s.users ++ [_])[id]? = some u ∧ _
      by_cases hname : username' = username
      · subst hname
        rw [update_self] at honline
        obtain rfl := Option.some.inj honline
        exact ⟨_, List.getElem?_concat_length, rfl⟩
      · rw [update_of_ne hname] at honline
        obtain ⟨v, hv, heq⟩ := h.online username' id honline
        exact ⟨v, getElem?_concat_of_eq_some hv, heq⟩
  · exact h

theorem logout (h : Linked s) (username : List UInt8) : Linked (s.logout username) := by
  unfold State.logout
  split
  · exact h
  rename_i id honline
  have hgone : ∀ username' id', update s.userOnline username none username' = some id' →
      s.userOnline username' = some id' ∧ id' ≠ id := by
    intro username' id' h'
    by_cases hname : username' = username
    · subst hname
      rw [update_self] at h'
      cases h'
    · rw [update_of_ne hname] at h'
      refine ⟨h', ?_⟩
      rintro rfl
      obtain ⟨u, hu, hfirst⟩ := h.online username' id' h'
      obtain ⟨u', hu', hsecond⟩ := h.online username id' honline
      obtain rfl := Option.some.inj (hu.symm.trans hu')
      exact hname (hfirst.symm.trans hsecond)
  have hleft : Linked { s with userOnline := update s.userOnline username none } :=
    { h with
      current := fun username' id' u fd h' => h.current username' id' u fd (hgone _ _ h').1
      online := fun username' id' h' => h.online username' id' (hgone _ _ h').1 }
  dsimp only
  split
  · exact hleft
  rename_i fd hbind
  obtain ⟨u, hu, hfd⟩ := Option.bind_eq_some_iff.mp hbind
  have hclosed := hleft.closeclient fd
  have hout : ∀ fd', update s.connection fd none fd' ≠ none → s.connection fd' ≠ none := by
    intro fd' hne
    by_cases hfd' : fd' = fd
    · subst hfd'
      rw [update_self] at hne
      exact absurd rfl hne
    · rwa [update_of_ne hfd'] at hne
  have hnone : ∀ fd', s.connection fd' = none → update s.connection fd none fd' = none := by
    intro fd' hfd'
    by_contra hne
    exact hout fd' hne hfd'
  refine { hclosed with linked := ?_, current := ?_, fresh := ?_, opened := ?_, closing := ?_ }
  · intro fd' id' hconn
    apply h.linked fd' id'
    change update s.connection fd none fd' = some id' at hconn
    by_cases hfd' : fd' = fd
    · subst hfd'
      rw [update_self] at hconn
      cases hconn
    · rwa [update_of_ne hfd'] at hconn
  · intro username' id' v fd' honline' hv hvfd
    obtain ⟨honline', hne⟩ := hgone username' id' honline'
    have hconn := h.current username' id' v fd' honline' hv hvfd
    have hfd' : fd' ≠ fd := by
      rintro rfl
      rw [h.current username id u fd' honline hu hfd] at hconn
      exact hne (Option.some.inj hconn).symm
    show update s.connection fd none fd' = some id'
    rwa [update_of_ne hfd']
  · exact fun fd' hfresh => hnone fd' (h.fresh fd' hfresh)
  · exact fun fd' hconn => hclosed.opened fd' (hout fd' hconn)
  · exact fun fd' hclosing => ⟨hnone fd' (h.closing fd' hclosing).1, (h.closing fd' hclosing).2⟩

theorem msgOpen (h : Linked s) {fd : ℕ} (hconn : s.connection fd = none) (hclosing : fd ∉ s.closing)
    (addr : List UInt8) : Linked (s.msgOpen fd addr) := by
  unfold State.msgOpen
  split_ifs
  · exact { h with asked := fun fd' hfd' => List.mem_append_left _ (h.asked fd' hfd') }
  · have hne : ∀ fd', s.connection fd' ≠ none → fd' ≠ fd := fun fd' hfd' heq => hfd' (heq ▸ hconn)
    refine { h with fresh := ?_, opened := ?_, asked := ?_, closing := ?_ }
    · intro fd' hfd'
      by_cases heq : fd' = fd
      · rw [heq]
        exact hconn
      · change update s.handshake fd (some addr) fd' ≠ none at hfd'
        rw [update_of_ne heq] at hfd'
        exact h.fresh fd' hfd'
    · intro fd' hfd'
      show update s.gate.client fd (some true) fd' ≠ none
      rw [update_of_ne (hne fd' hfd')]
      exact h.opened fd' hfd'
    · intro fd' hfd'
      change update s.gate.client fd (some true) fd' = some false at hfd'
      by_cases heq : fd' = fd
      · subst heq
        rw [update_self] at hfd'
        cases hfd'
      · rw [update_of_ne heq] at hfd'
        exact h.asked fd' hfd'
    · intro fd' hfd'
      have heq : fd' ≠ fd := by
        rintro rfl
        exact hclosing hfd'
      show s.connection fd' = none ∧ update s.handshake fd (some addr) fd' = none
      rw [update_of_ne heq]
      exact h.closing fd' hfd'

/-- A socket is no longer in its first message. -/
theorem shaken (h : Linked s) (fd : ℕ) :
    Linked { s with handshake := update s.handshake fd none } := by
  have hnone : ∀ fd', s.handshake fd' = none → update s.handshake fd none fd' = none := by
    intro fd' hfd'
    by_cases heq : fd' = fd
    · subst heq
      exact update_self ..
    · rwa [update_of_ne heq]
  refine { h with fresh := fun fd' hfd' => h.fresh fd' fun hnone' => hfd' (hnone fd' hnone')
                  closing := fun fd' hfd' => ?_ }
  exact ⟨(h.closing fd' hfd').1, hnone fd' (h.closing fd' hfd').2⟩

/-- A record gets a socket: it has had none. -/
theorem seize (h : Linked s) {fd id : ℕ} {u : User ι} {f : User ι → User ι}
    (hget : s.users[id]? = some u) (hnone : u.fd = none) (hfd : (f u).fd = some fd)
    (husername : (f u).username = u.username) (hconn : s.connection fd = none)
    (hclient : s.gate.client fd ≠ none) (hhandshake : s.handshake fd = none)
    (hclosing : fd ∉ s.closing) :
    Linked { s with
      users := s.users.modify id f
      connection := update s.connection fd (some id) } := by
  have hother : ∀ fd' id', s.connection fd' = some id' → id' ≠ id := by
    rintro fd' id' h' rfl
    obtain ⟨v, hv, hvfd⟩ := h.linked fd' id' h'
    obtain rfl := Option.some.inj (hget.symm.trans hv)
    rw [hnone] at hvfd
    cases hvfd
  have hne : ∀ fd', s.connection fd' ≠ none → fd' ≠ fd := fun fd' hfd' heq => hfd' (heq ▸ hconn)
  refine { h with
    linked := fun fd' id' hconn' => ?_
    current := fun username id' v fd' honline hv hvfd => ?_
    online := fun username id' honline => ?_
    fresh := fun fd' hfd' => ?_
    opened := fun fd' hfd' => ?_
    closing := fun fd' hfd' => ?_ }
  · change update s.connection fd (some id) fd' = some id' at hconn'
    show ∃ u, (s.users.modify id f)[id']? = some u ∧ _
    by_cases heq : fd' = fd
    · subst heq
      rw [update_self] at hconn'
      obtain rfl := Option.some.inj hconn'
      rw [List.getElem?_modify_eq, hget]
      exact ⟨f u, rfl, hfd⟩
    · rw [update_of_ne heq] at hconn'
      rw [List.getElem?_modify_ne f _ (Ne.symm (hother fd' id' hconn'))]
      exact h.linked fd' id' hconn'
  · show update s.connection fd (some id) fd' = some id'
    rcases getElem?_modify_cases hget hv with ⟨rfl, rfl⟩ | ⟨-, hv⟩
    · rw [hfd] at hvfd
      obtain rfl := Option.some.inj hvfd
      exact update_self ..
    · have hcurrent := h.current username id' v fd' honline hv hvfd
      rw [update_of_ne (hne fd' (hcurrent ▸ nofun))]
      exact hcurrent
  · obtain ⟨v, hv, hname⟩ := h.online username id' honline
    show ∃ u, (s.users.modify id f)[id']? = some u ∧ _
    by_cases heq : id' = id
    · subst heq
      obtain rfl := Option.some.inj (hget.symm.trans hv)
      rw [List.getElem?_modify_eq, hget]
      exact ⟨f u, rfl, husername.trans hname⟩
    · rw [List.getElem?_modify_ne f _ (Ne.symm heq)]
      exact ⟨v, hv, hname⟩
  · have heq : fd' ≠ fd := by
      rintro rfl
      exact hfd' hhandshake
    show update s.connection fd (some id) fd' = none
    rw [update_of_ne heq]
    exact h.fresh fd' hfd'
  · by_cases heq : fd' = fd
    · rw [heq]
      exact hclient
    · change update s.connection fd (some id) fd' ≠ none at hfd'
      rw [update_of_ne heq] at hfd'
      exact h.opened fd' hfd'
  · have heq : fd' ≠ fd := by
      rintro rfl
      exact hclosing hfd'
    show update s.connection fd (some id) fd' = none ∧ _
    rw [update_of_ne heq]
    exact h.closing fd' hfd'

/-- A record loses its socket. -/
theorem lose (h : Linked s) {fd id : ℕ} (hconn : s.connection fd = some id) :
    Linked { s with
      users := s.users.modify id fun u => { u with fd := none }
      connection := update s.connection fd none } := by
  obtain ⟨u, hget, hfd⟩ := h.linked fd id hconn
  have hout : ∀ fd' id', update s.connection fd none fd' = some id' →
      s.connection fd' = some id' ∧ id' ≠ id := by
    intro fd' id' h'
    by_cases heq : fd' = fd
    · subst heq
      rw [update_self] at h'
      cases h'
    · rw [update_of_ne heq] at h'
      refine ⟨h', ?_⟩
      rintro rfl
      obtain ⟨v, hv, hvfd⟩ := h.linked fd' id' h'
      obtain rfl := Option.some.inj (hget.symm.trans hv)
      exact heq (Option.some.inj (hvfd.symm.trans hfd))
  have hnone : ∀ fd', s.connection fd' = none → update s.connection fd none fd' = none := by
    intro fd' hfd'
    cases hconn' : update s.connection fd none fd' with
    | none => rfl
    | some id' => cases hfd'.symm.trans (hout fd' id' hconn').1
  refine { h with
    linked := fun fd' id' hconn' => ?_
    current := fun username id' v fd' honline hv hvfd => ?_
    online := fun username id' honline => ?_
    fresh := fun fd' hfd' => hnone fd' (h.fresh fd' hfd')
    opened := fun fd' hfd' => h.opened fd' fun hnone' => hfd' (hnone fd' hnone')
    closing := fun fd' hfd' => ⟨hnone fd' (h.closing fd' hfd').1, (h.closing fd' hfd').2⟩ }
  · obtain ⟨hconn', hne⟩ := hout fd' id' hconn'
    show ∃ u, (s.users.modify id _)[id']? = some u ∧ _
    rw [List.getElem?_modify_ne _ _ (Ne.symm hne)]
    exact h.linked fd' id' hconn'
  · show update s.connection fd none fd' = some id'
    rcases getElem?_modify_cases hget hv with ⟨-, rfl⟩ | ⟨hne, hv⟩
    · cases hvfd
    · have hcurrent := h.current username id' v fd' honline hv hvfd
      rw [update_of_ne]
      · exact hcurrent
      · rintro rfl
        exact hne (Option.some.inj (hcurrent.symm.trans hconn))
  · obtain ⟨v, hv, hname⟩ := h.online username id' honline
    show ∃ u, (s.users.modify id _)[id']? = some u ∧ _
    by_cases heq : id' = id
    · subst heq
      obtain rfl := Option.some.inj (hget.symm.trans hv)
      rw [List.getElem?_modify_eq, hget]
      exact ⟨_, rfl, hname⟩
    · rw [List.getElem?_modify_ne _ _ (Ne.symm heq)]
      exact ⟨v, hv, hname⟩

theorem disconnect (conf : Conf ι) (h : Linked s) (fd : ℕ) :
    Linked (s.disconnect conf fd) := by
  have hshaken := h.shaken fd
  unfold State.disconnect
  dsimp only
  split
  · rename_i hconn
    exact hshaken.closeFd hconn
  · rename_i id hconn
    have hlost := hshaken.lose hconn
    have hnone : update s.connection fd none fd = none := update_self ..
    split_ifs
    · refine { hlost with closing := fun fd' hfd' => ?_ }
      rcases List.mem_append.mp hfd' with hfd' | hfd'
      · exact hlost.closing fd' hfd'
      · obtain rfl := List.mem_singleton.mp hfd'
        exact ⟨hnone, update_self ..⟩
    · exact hlost.closeFd hnone

theorem handled {conf : Conf ι} (h : Linked s) {run : HandlerRun} {u : User ι}
    (hget : s.users[run.user]? = some u) (p : Entry ι) (outcome : Outcome) :
    Linked (s.handled conf run u p outcome) := by
  unfold State.handled
  split
  · split_ifs
    · exact h
    · exact h.closeclient run.fd
  · exact { h.setUser hget (User.login_complete ..) with }

theorem init (maxclient : ℕ) : Linked (State.init maxclient : State ι) where
  linked := nofun
  current := nofun
  online := nofun
  fresh _ hne := absurd rfl hne
  opened _ hne := absurd rfl hne
  asked := nofun
  closing := nofun

variable [LinearOrder ι] {conf : Conf ι}

theorem request (h : Linked s) (fd : ℕ) (message : List UInt8) :
    Linked (s.request conf fd message) := by
  unfold State.request
  split
  · exact h
  split
  · exact h
  rename_i id hconn u hget
  split_ifs
  · exact h.closeclient fd
  have hset := h.setUser hget
    (User.login_request u conf.expiredNumber fd (sessionOf message))
  dsimp only
  split
  · exact hset.closeclient fd
  · exact { hset with }
  · exact hset
  · exact { hset with }

/-- What a handshake that succeeds has found. -/
theorem doAuth_eq_ok {message : List UInt8} {id : ℕ} {idx : ι}
    (h : s.doAuth conf message = .ok (id, idx)) :
    (∃ username, s.userOnline username = some id) ∧
      ∃ u, s.users[id]? = some u ∧ u.version < idx := by
  unfold State.doAuth at h
  split at h
  · cases h
  split at h
  · cases h
  rename_i honline
  split at h
  · rename_i u idx' hmac hget hindex hdecode
    split_ifs at h with hidx
    split at h
    · cases h
    · split_ifs at h
      cases h
      exact ⟨⟨_, honline⟩, u, hget, not_le.mp hidx⟩
  · cases h

theorem msgData (h : Linked s) {fd : ℕ} {message : List UInt8}
    (halone : s.Alone conf (.msgData fd message)) : Linked (s.msgData conf fd message) := by
  unfold State.msgData
  split_ifs with hclient
  · split
    · rename_i addr hhandshake
      have hfresh : s.handshake fd ≠ none := hhandshake ▸ nofun
      have hfree := halone hclient hfresh
      have hshaken := h.shaken fd
      unfold State.auth
      split
      · rename_i id idx hok
        rw [hok] at hfree
        obtain ⟨-, u, hget, -⟩ := doAuth_eq_ok hok
        have hclosing : fd ∉ s.closing := fun hmem => hfresh (h.closing fd hmem).2
        have hclient' : s.gate.client fd ≠ none := hclient ▸ nofun
        exact { hshaken.seize
          (f := fun u => { u with version := idx, fd := some fd, ip := some addr })
          hget (hfree u hget) rfl rfl (h.fresh fd hfresh) hclient' (update_self ..) hclosing with }
      · exact { hshaken.closeclient fd with }
    · exact h.request fd message
  · exact h

theorem step [Zero ι] {a : Action} (h : Linked s) (halone : s.Alone conf a)
    (hstep : s.step conf a = some s') : Linked s' := by
  cases a with
  | login username secret =>
    cases hstep
    exact h.login username secret
  | logout username =>
    cases hstep
    exact h.logout username
  | msgOpen fd addr =>
    rw [State.step] at hstep
    split_ifs at hstep with hfree
    cases hstep
    exact h.msgOpen hfree.1 hfree.2 addr
  | msgData fd message =>
    cases hstep
    exact h.msgData halone
  | msgClose fd =>
    cases hstep
    exact h.disconnect conf fd
  | msgError fd =>
    cases hstep
    exact h.disconnect conf fd
  | handled run outcome =>
    obtain ⟨u, hget, hstep⟩ := Option.bind_eq_some_iff.mp hstep
    obtain ⟨p, -, hstep⟩ := Option.bind_eq_some_iff.mp hstep
    split_ifs at hstep
    cases hstep
    have herase : Linked { s with runs := s.runs.erase run } := { h with }
    exact herase.handled hget p outcome
  | disconnected fd ok =>
    rw [State.step] at hstep
    have herase : Linked { s with closing := s.closing.erase fd } :=
      { h with closing := fun fd' hfd' => h.closing fd' (List.mem_of_mem_erase hfd') }
    split_ifs at hstep with hmem
    · cases hstep
      exact herase.closeFd (h.closing fd hmem).1
    · cases hstep
      exact herase

end Linked

/-! ## A record that is in no table -/

/-- The record is in no table, and its calls of `request_handler` are `calls`. -/
structure Gone (id : ℕ) (calls : List (ℕ × List UInt8)) (s : State ι) : Prop where
  connection : ∀ fd, s.connection fd ≠ some id
  online : ∀ username, s.userOnline username ≠ some id
  known : id < s.users.length
  calls : s.requests.filter (fun r => r.1 = id) = calls

variable {id : ℕ} {calls : List (ℕ × List UInt8)}

/-- What has just been logged out is gone. -/
theorem Linked.logout_gone (h : Linked s) {username : List UInt8}
    (honline : s.userOnline username = some id) :
    Gone id (s.requests.filter fun r => r.1 = id) (s.logout username) := by
  obtain ⟨u, hget, hname⟩ := h.online username id honline
  have hother : ∀ username', update s.userOnline username none username' ≠ some id := by
    intro username' h'
    by_cases heq : username' = username
    · subst heq
      rw [update_self] at h'
      cases h'
    · rw [update_of_ne heq] at h'
      obtain ⟨v, hv, hname'⟩ := h.online username' id h'
      obtain rfl := Option.some.inj (hget.symm.trans hv)
      exact heq (hname'.symm.trans hname)
  have hlt := (List.getElem?_eq_some_iff.mp hget).1
  unfold State.logout
  rw [honline]
  dsimp only
  rw [hget, Option.bind_some]
  split
  · rename_i hnone
    refine ⟨fun fd hconn => ?_, hother, hlt, rfl⟩
    obtain ⟨v, hv, hfd⟩ := h.linked fd id hconn
    obtain rfl := Option.some.inj (hget.symm.trans hv)
    cases hnone.symm.trans hfd
  · rename_i fd hfd
    refine ⟨fun fd' hconn => ?_, hother, hlt, rfl⟩
    change update s.connection fd none fd' = some id at hconn
    by_cases heq : fd' = fd
    · subst heq
      rw [update_self] at hconn
      cases hconn
    · rw [update_of_ne heq] at hconn
      obtain ⟨v, hv, hfd'⟩ := h.linked fd' id hconn
      obtain rfl := Option.some.inj (hget.symm.trans hv)
      exact heq (Option.some.inj (hfd'.symm.trans hfd))

/-- The user's socket has been asked to close. -/
theorem Linked.logout_asked (h : Linked s) {username : List UInt8} {u : User ι} {fd : ℕ}
    (honline : s.userOnline username = some id) (hget : s.users[id]? = some u)
    (hfd : u.fd = some fd) :
    (s.logout username).gate.client fd = some false ∧ fd ∈ (s.logout username).gate.closes := by
  have hconn := h.current username id u fd honline hget hfd
  have hgate : (s.logout username).gate = s.gate.closeclient fd := by
    unfold State.logout
    rw [honline]
    dsimp only
    rw [hget, Option.bind_some, hfd]
    rfl
  have hclient := Gate.closeclient_self (h.opened fd (hconn ▸ nofun))
  rw [hgate]
  exact ⟨hclient, Gate.closeclient_asked h.asked hclient⟩

namespace Gone

/-- A table that loses what it has under some sockets. -/
theorem update_none {connection : ℕ → Option ℕ} (h : ∀ fd, connection fd ≠ some id) (fd fd' : ℕ) :
    update connection fd none fd' ≠ some id := by
  by_cases heq : fd' = fd
  · subst heq
    rw [update_self]
    exact nofun
  · rw [update_of_ne heq]
    exact h fd'

variable (h : Gone id calls s)

include h

theorem login [Zero ι] (username secret : List UInt8) :
    Gone id calls (s.login username secret) := by
  unfold State.login
  split_ifs
  · refine ⟨h.connection, fun username' h' => ?_, ?_, h.calls⟩
    · change update s.userOnline username (some s.users.length) username' = some id at h'
      by_cases heq : username' = username
      · subst heq
        rw [update_self] at h'
        have := Option.some.inj h'
        have := h.known
        omega
      · rw [update_of_ne heq] at h'
        exact h.online username' h'
    · show id < (s.users ++ [_]).length
      rw [List.length_append]
      exact Nat.lt_add_right _ h.known
  · exact h

theorem logout (username : List UInt8) : Gone id calls (s.logout username) := by
  unfold State.logout
  split
  · exact h
  · have honline : ∀ username', update s.userOnline username none username' ≠ some id := by
      intro username' h'
      by_cases heq : username' = username
      · subst heq
        rw [update_self] at h'
        cases h'
      · rw [update_of_ne heq] at h'
        exact h.online username' h'
    dsimp only
    split
    · exact ⟨h.connection, honline, h.known, h.calls⟩
    · exact ⟨update_none h.connection _, honline, h.known, h.calls⟩

theorem disconnect (conf : Conf ι) (fd : ℕ) : Gone id calls (s.disconnect conf fd) := by
  have hmodify : ∀ (id' : ℕ) (f : User ι → User ι), id < (s.users.modify id' f).length := by
    intro id' f
    rw [List.length_modify]
    exact h.known
  unfold State.disconnect
  dsimp only
  split
  · exact ⟨h.connection, h.online, h.known, h.calls⟩
  · split_ifs
    · exact ⟨update_none h.connection fd, h.online, hmodify .., h.calls⟩
    · exact ⟨update_none h.connection fd, h.online, hmodify .., h.calls⟩

theorem setUser (id' : ℕ) (u : User ι) : Gone id calls (s.setUser id' u) := by
  refine ⟨h.connection, h.online, ?_, h.calls⟩
  show id < (s.users.set id' u).length
  rw [List.length_set]
  exact h.known

variable [LinearOrder ι] {conf : Conf ι}

theorem request (fd : ℕ) (message : List UInt8) : Gone id calls (s.request conf fd message) := by
  unfold State.request
  split
  · exact h
  rename_i id' hconn
  split
  · exact h
  rename_i u hget
  split_ifs
  · exact ⟨h.connection, h.online, h.known, h.calls⟩
  have hset := h.setUser id' (u.request conf.expiredNumber fd (sessionOf message)).1
  dsimp only
  split
  · exact ⟨hset.connection, hset.online, hset.known, hset.calls⟩
  · refine ⟨hset.connection, hset.online, hset.known, ?_⟩
    have hne : id' ≠ id := fun heq => h.connection fd (heq ▸ hconn)
    show (s.requests ++ [(id', _)]).filter _ = calls
    rw [List.filter_append, List.filter_singleton, decide_eq_false hne, h.calls]
    exact List.append_nil calls
  · exact hset
  · exact ⟨hset.connection, hset.online, hset.known, hset.calls⟩

theorem msgData (fd : ℕ) (message : List UInt8) : Gone id calls (s.msgData conf fd message) := by
  unfold State.msgData
  split_ifs
  · split
    · unfold State.auth
      split
      · rename_i id' idx hok
        obtain ⟨⟨username, honline⟩, -⟩ := Linked.doAuth_eq_ok hok
        have hne : id' ≠ id := fun heq => h.online username (heq ▸ honline)
        refine ⟨fun fd' h' => ?_, h.online, ?_, h.calls⟩
        · change update s.connection fd (some id') fd' = some id at h'
          by_cases heq : fd' = fd
          · subst heq
            rw [update_self] at h'
            exact hne (Option.some.inj h')
          · rw [update_of_ne heq] at h'
            exact h.connection fd' h'
        · show id < (s.users.modify id' _).length
          rw [List.length_modify]
          exact h.known
      · exact ⟨h.connection, h.online, h.known, h.calls⟩
    · exact h.request fd message
  · exact h

theorem step [Zero ι] {a : Action} (hstep : s.step conf a = some s') : Gone id calls s' := by
  cases a with
  | login username secret =>
    cases hstep
    exact h.login username secret
  | logout username =>
    cases hstep
    exact h.logout username
  | msgOpen fd addr =>
    rw [State.step] at hstep
    split_ifs at hstep
    cases hstep
    unfold State.msgOpen
    split_ifs
    · exact ⟨h.connection, h.online, h.known, h.calls⟩
    · exact ⟨h.connection, h.online, h.known, h.calls⟩
  | msgData fd message =>
    cases hstep
    exact h.msgData fd message
  | msgClose fd =>
    cases hstep
    exact h.disconnect conf fd
  | msgError fd =>
    cases hstep
    exact h.disconnect conf fd
  | handled run outcome =>
    obtain ⟨u, -, hstep⟩ := Option.bind_eq_some_iff.mp hstep
    obtain ⟨p, -, hstep⟩ := Option.bind_eq_some_iff.mp hstep
    split_ifs at hstep
    cases hstep
    unfold State.handled
    split
    · split_ifs
      · exact ⟨h.connection, h.online, h.known, h.calls⟩
      · exact ⟨h.connection, h.online, h.known, h.calls⟩
    · have hset := h.setUser run.user
      exact ⟨h.connection, h.online, (hset _).known, h.calls⟩
  | disconnected fd ok =>
    rw [State.step] at hstep
    split_ifs at hstep
    · cases hstep
      exact ⟨h.connection, h.online, h.known, h.calls⟩
    · cases hstep
      exact ⟨h.connection, h.online, h.known, h.calls⟩

end Gone

theorem State.disconnects_request [LinearOrder ι] {conf : Conf ι} (fd : ℕ)
    (message : List UInt8) : (s.request conf fd message).disconnects = s.disconnects := by
  unfold State.request
  split
  · rfl
  split
  · rfl
  split_ifs
  · rfl
  dsimp only
  split
  · rfl
  · rfl
  · rfl
  · rfl

theorem State.disconnects_msgData [LinearOrder ι] {conf : Conf ι} (fd : ℕ)
    (message : List UInt8) : (s.msgData conf fd message).disconnects = s.disconnects := by
  unfold State.msgData
  split_ifs
  · split
    · unfold State.auth
      split
      · rfl
      · rfl
    · exact State.disconnects_request fd message
  · rfl

/-- `disconnect_handler` is called for the socket that the record has. -/
theorem Linked.disconnects_step [LinearOrder ι] [Zero ι] {conf : Conf ι} (h : Linked s)
    {a : Action} (hstep : s.step conf a = some s') :
    s'.disconnects = s.disconnects ∨ ∃ fd id u, (a = .msgClose fd ∨ a = .msgError fd) ∧
      s.users[id]? = some u ∧ u.fd = some fd ∧ s'.disconnects = s.disconnects ++ [(id, fd)] := by
  have hdisconnect : ∀ fd, (s.disconnect conf fd).disconnects = s.disconnects ∨
      ∃ id u, s.users[id]? = some u ∧ u.fd = some fd ∧
        (s.disconnect conf fd).disconnects = s.disconnects ++ [(id, fd)] := by
    intro fd
    unfold State.disconnect
    dsimp only
    split
    · exact .inl rfl
    · rename_i id hconn
      obtain ⟨u, hget, hfd⟩ := h.linked fd id hconn
      split_ifs
      · exact .inr ⟨id, u, hget, hfd, rfl⟩
      · exact .inl rfl
  cases a with
  | login username secret =>
    cases hstep
    left
    unfold State.login
    split_ifs
    · rfl
    · rfl
  | logout username =>
    cases hstep
    left
    unfold State.logout
    split
    · rfl
    · dsimp only
      split
      · rfl
      · rfl
  | msgOpen fd addr =>
    rw [State.step] at hstep
    split_ifs at hstep
    cases hstep
    left
    unfold State.msgOpen
    split_ifs
    · rfl
    · rfl
  | msgData fd message =>
    cases hstep
    left
    exact State.disconnects_msgData fd message
  | msgClose fd =>
    cases hstep
    rcases hdisconnect fd with heq | ⟨id, u, hget, hfd, heq⟩
    · exact .inl heq
    · exact .inr ⟨fd, id, u, .inl rfl, hget, hfd, heq⟩
  | msgError fd =>
    cases hstep
    rcases hdisconnect fd with heq | ⟨id, u, hget, hfd, heq⟩
    · exact .inl heq
    · exact .inr ⟨fd, id, u, .inr rfl, hget, hfd, heq⟩
  | handled run outcome =>
    obtain ⟨u, -, hstep⟩ := Option.bind_eq_some_iff.mp hstep
    obtain ⟨p, -, hstep⟩ := Option.bind_eq_some_iff.mp hstep
    split_ifs at hstep
    cases hstep
    left
    unfold State.handled
    split
    · split_ifs
      · rfl
      · rfl
    · rfl
  | disconnected fd ok =>
    rw [State.step] at hstep
    split_ifs at hstep
    · cases hstep
      exact .inl rfl
    · cases hstep
      exact .inl rfl

end

/-- **After the logout.** When a handshake succeeds only for a user that has no socket,
`disconnect_handler` is called for the socket that the record has, and after `server.logout` this
has been asked to close, no socket has the record, and `request_handler` is not called for it. -/
theorem logged_out [LinearOrder ι] [Zero ι] {conf : Conf ι} {maxclient : ℕ} {as : List Action}
    {s : State ι} (h : run (State.step conf) (.init maxclient) as = some s)
    (hok : Guarded (State.step conf) (State.Alone conf) (.init maxclient) as) :
    (∀ a t, s.step conf a = some t → t.disconnects = s.disconnects ∨
      ∃ fd id u, (a = .msgClose fd ∨ a = .msgError fd) ∧ s.users[id]? = some u ∧
        u.fd = some fd ∧ t.disconnects = s.disconnects ++ [(id, fd)]) ∧
    ∀ username id u, s.userOnline username = some id → s.users[id]? = some u →
      (∀ fd, u.fd = some fd → (s.logout username).gate.client fd = some false ∧
        fd ∈ (s.logout username).gate.closes) ∧
      ∀ bs t, run (State.step conf) (s.logout username) bs = some t →
        (∀ fd, t.connection fd ≠ some id) ∧
        t.requests.filter (fun r => r.1 = id) = s.requests.filter fun r => r.1 = id := by
  have hlinked : Linked s :=
    run_invariant (fun s a s' h halone hstep => h.step halone hstep) (Linked.init maxclient) hok h
  refine ⟨fun a t hstep => hlinked.disconnects_step hstep, fun username id u honline hget => ?_⟩
  refine ⟨fun fd hfd => hlinked.logout_asked honline hget hfd, fun bs t ht => ?_⟩
  have hgone : Gone id (s.requests.filter fun r => r.1 = id) t :=
    run_invariant_of_step (fun s a s' h hstep => h.step hstep) (hlinked.logout_gone honline) ht
  exact ⟨hgone.connection, hgone.calls⟩

/-- A user logs in, has a socket, and logs out. -/
theorem logged_out_socket :
    ∃ s : State ℕ, run (State.step (sampleConf 128)) (.init 1024) [
      .login [117] [115, 101, 99, 114, 101, 116, 48, 48], .msgOpen 1 [], .msgData 1 sampleFirst] =
        some s ∧ s.connection 1 = some 0 ∧ (s.logout [117]).connection 1 ≠ some 0 := by
  have hok : Guarded (State.step (sampleConf 128)) (State.Alone (sampleConf 128)) (.init 1024) [
      .login [117] [115, 101, 99, 114, 101, 116, 48, 48], .msgOpen 1 [],
      .msgData 1 sampleFirst] := by
    decide
  refine ⟨_, rfl, rfl, ?_⟩
  exact (((logged_out rfl hok).2 [117] 0 _ rfl rfl).2 [] _ rfl).1 1

/-- A second handshake: after the logout, the first socket is served, or the second. -/
theorem served_after_logout :
    ∃ s : State ℕ, run (State.step (sampleConf 128)) (.init 1024) [
      .login [117] [115, 101, 99, 114, 101, 116, 48, 48], .msgOpen 1 [], .msgData 1 sampleFirst,
      .msgOpen 2 [], .msgData 2 sampleSecond] = some s ∧ s.userOnline [117] = some 0 ∧
      (s.logout [117]).connection 1 = some 0 ∧
      ((s.disconnect (sampleConf 128) 1).logout [117]).connection 2 = some 0 ∧
      ((s.disconnect (sampleConf 128) 1).logout [117]).gate.client 2 = some true ∧
      (s.disconnect (sampleConf 128) 1).disconnects = [(0, 1)] ∧
      (s.users[0]?.bind User.fd) = some 2 ∧
      ((s.logout [117]).msgData (sampleConf 128) 1 [0, 0, 0, 0]).requests = [(0, [])] := by
  exact ⟨_, rfl, rfl, rfl, rfl, rfl, rfl, rfl, rfl⟩

end SkynetEureka.MsgServer
