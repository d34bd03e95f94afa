import SkynetEureka.LoginServer.Server

/-!
# One verdict for each connection

`Conn.Calm` says what holds of a connection in each of its phases, and `Locked` that a uid is locked
exactly as long as its `login_handler` runs.
-/

namespace SkynetEureka.LoginServer

open Lib Function

variable {Server Uid : Type}

/-! ## Connections -/

/-- The status lines that have been sent -/
def Conn.statuses (c : Conn Server Uid) : List Line := c.sent.filter Line.isStatus

/-- What the client has passed when its connection is in this phase, and what it has been sent -/
def Phase.Ok (c : Conn Server Uid) : Phase Server Uid → Prop
  | .started | .handshake _ | .response .. => c.statuses = [] ∧ c.closed = false
  | .token _ | .auth .. => c.statuses = [] ∧ c.closed = false ∧ c.challenged = true
  | .replied .socketError => c.statuses = [] ∧ c.closed = false
  | .replied (.failed _) =>
    (c.statuses = [] ∨ c.statuses = [.status .badRequest]) ∧ c.closed = false
  | .replied (.ok ..) | .login .. =>
    c.statuses = [] ∧ c.closed = false ∧ c.challenged = true ∧ c.authorized = true
  | .ended => c.statuses.length ≤ 1 ∧ c.closed = true ∧
      ∀ subid, .status (.success subid) ∈ c.statuses →
        c.challenged = true ∧ c.authorized = true ∧ c.loggedIn = true

/-- The uid whose `login_handler` runs -/
def Phase.uid : Phase Server Uid → Option Uid
  | .login _ uid _ => uid
  | _ => none

/-- The connection is as it has to be, and no `login_handler` runs for it. -/
def Conn.Calm (c : Conn Server Uid) : Prop := c.phase.Ok c ∧ c.phase.uid = none

section

variable {c : Conn Server Uid} {written : Bool} {failure : Failure} {status : Status}

theorem Conn.Calm.new : (Conn.new : Conn Server Uid).Calm := ⟨⟨rfl, rfl⟩, rfl⟩

theorem statuses_append (l l' : List Line) :
    (l ++ l').filter Line.isStatus = l.filter Line.isStatus ++ l'.filter Line.isStatus :=
  List.filter_append _ _

/-- A line of the handshake is no status. -/
theorem turn_key {text : Text} {phase : Phase Server Uid} (hnone : c.statuses = []) :
    (c.turn (some (.key text), phase)).statuses = [] := by
  show (c.sent ++ [Line.key text]).filter Line.isStatus = []
  rw [statuses_append]
  show c.statuses ++ [] = []
  rw [hnone, List.append_nil]

theorem turn_none {phase : Phase Server Uid} : (c.turn (none, phase)).statuses = c.statuses := by
  show (c.sent ++ []).filter Line.isStatus = _
  rw [List.append_nil]
  rfl

/-- An error in the slave -/
theorem Conn.Calm.abort (hnone : c.statuses = []) (hclosed : c.closed = false) :
    (c.turn (LoginServer.abort failure)).Calm := by
  have hstatuses : (c.turn (LoginServer.abort failure)).statuses = [] := by
    unfold LoginServer.abort
    rw [turn_none, hnone]
  cases failure with
  | socket => exact ⟨⟨hstatuses, hclosed⟩, rfl⟩
  | message text => exact ⟨⟨.inl hstatuses, hclosed⟩, rfl⟩

/-- A line of the handshake is sent, or the socket has been closed. -/
theorem Conn.Calm.write {text : Text} {next : Phase Server Uid} (hnone : c.statuses = [])
    (hclosed : c.closed = false)
    (hnext : (c.turn (some (.key text), next)).statuses = [] →
      (c.turn (some (.key text), next)).Calm) :
    (c.turn (LoginServer.write written (.key text) next)).Calm := by
  unfold LoginServer.write
  split
  · exact hnext (turn_key hnone)
  · exact Conn.Calm.abort hnone hclosed

theorem Conn.Calm.started {crypt : Crypt} {challenge : Text} {ok : Bool} (hnone : c.statuses = [])
    (hclosed : c.closed = false) :
    (c.turn (LoginServer.started crypt challenge ok written)).Calm := by
  unfold LoginServer.started
  split
  · exact Conn.Calm.abort hnone hclosed
  · exact Conn.Calm.write hnone hclosed fun hstatuses => ⟨⟨hstatuses, hclosed⟩, rfl⟩

theorem Conn.Calm.handshake {crypt : Crypt} {challenge serverkey : Text} {line : Option Text}
    (hnone : c.statuses = []) (hclosed : c.closed = false) :
    (c.turn (LoginServer.handshake crypt challenge serverkey written line)).Calm := by
  unfold LoginServer.handshake
  split
  · exact Conn.Calm.abort hnone hclosed
  · split
    · exact Conn.Calm.abort hnone hclosed
    · split
      · exact Conn.Calm.abort hnone hclosed
      · split
        · exact Conn.Calm.abort hnone hclosed
        · refine Conn.Calm.write hnone hclosed ?_
          cases crypt.dhsecret _ serverkey with
          | none => exact fun hstatuses => ⟨⟨.inl hstatuses, hclosed⟩, rfl⟩
          | some secret => exact fun hstatuses => ⟨⟨hstatuses, hclosed⟩, rfl⟩

/-- A wrong answer to the challenge may have been told to the client. -/
theorem Conn.Calm.response {crypt : Crypt} {challenge secret : Text} {line : Option Text}
    (hnone : c.statuses = []) (hclosed : c.closed = false)
    (hchallenged : ∀ secret', (LoginServer.response crypt challenge secret written line :
      Turn Server Uid).2 = .token secret' → c.challenged = true) :
    (c.turn (LoginServer.response crypt challenge secret written line)).Calm := by
  unfold LoginServer.response at hchallenged ⊢
  cases line with
  | none => exact Conn.Calm.abort hnone hclosed
  | some line =>
    dsimp only at hchallenged ⊢
    cases hdecode : crypt.base64decode line with
    | none => exact Conn.Calm.abort hnone hclosed
    | some hmac =>
      rw [hdecode] at hchallenged
      dsimp only at hchallenged ⊢
      by_cases hwrong : crypt.hmac64 challenge secret ≠ hmac
      · rw [if_pos hwrong]
        unfold LoginServer.write
        split
        · refine ⟨⟨.inr ?_, hclosed⟩, rfl⟩
          show (c.sent ++ [Line.status .badRequest]).filter Line.isStatus = _
          rw [statuses_append]
          show c.statuses ++ _ = _
          rw [hnone]
          rfl
        · exact Conn.Calm.abort hnone hclosed
      · rw [if_neg hwrong] at hchallenged ⊢
        exact ⟨⟨turn_none.trans hnone, hclosed, hchallenged secret rfl⟩, rfl⟩

theorem Conn.Calm.token {crypt : Crypt} {secret : Text} {line : Option Text}
    (hnone : c.statuses = []) (hclosed : c.closed = false) (hchallenged : c.challenged = true) :
    (c.turn (LoginServer.token crypt secret line)).Calm := by
  unfold LoginServer.token
  split
  · exact Conn.Calm.abort hnone hclosed
  · split
    · exact Conn.Calm.abort hnone hclosed
    · cases crypt.desdecode secret _ with
      | none => exact ⟨⟨.inl (turn_none.trans hnone), hclosed⟩, rfl⟩
      | some text => exact ⟨⟨turn_none.trans hnone, hclosed, hchallenged⟩, rfl⟩

/-- The end of `accept` after a status, when none has been sent before -/
theorem Conn.Calm.verdict (hnone : c.statuses = [])
    (hsuccess : ∀ subid, status = .success subid →
      c.challenged = true ∧ c.authorized = true ∧ c.loggedIn = true) :
    (c.verdict written status).Calm := by
  have hstatuses : (c.verdict written status).statuses =
      if written then [.status status] else [] := by
    show (c.sent ++ _).filter Line.isStatus = _
    rw [statuses_append]
    show c.statuses ++ _ = _
    rw [hnone]
    cases written <;> rfl
  refine ⟨⟨?_, rfl, ?_⟩, rfl⟩
  · rw [hstatuses]
    split
    · exact Nat.le_refl 1
    · exact Nat.zero_le 1
  · intro subid hmem
    rw [hstatuses] at hmem
    split at hmem
    · cases List.mem_singleton.mp hmem
      exact hsuccess subid rfl
    · cases hmem

theorem Conn.Calm.finish (hstatuses : c.statuses.length ≤ 1)
    (hsuccess : ∀ subid, .status (.success subid) ∈ c.statuses →
      c.challenged = true ∧ c.authorized = true ∧ c.loggedIn = true) :
    (c.finish none).Calm := by
  have heq : (c.finish none).statuses = c.statuses := by
    show (c.sent ++ []).filter Line.isStatus = _
    rw [List.append_nil]
    rfl
  refine ⟨⟨?_, rfl, ?_⟩, rfl⟩
  · rw [heq]
    exact hstatuses
  · rw [heq]
    exact hsuccess

theorem Conn.Calm.finish_nil (hnone : c.statuses = []) : (c.finish none).Calm := by
  refine Conn.Calm.finish ?_ ?_
  · rw [hnone]
    exact Nat.zero_le 1
  · rw [hnone]
    intro subid hmem
    cases hmem

end

/-! ## Locks -/

def State.loggingIn (s : State Server Uid) (fd : ℕ) : Option Uid :=
  (s.conns fd).bind fun c => c.phase.uid

/-- A uid is locked as long as its `login_handler` runs, and it runs for one connection only. -/
structure Locked (s : State Server Uid) : Prop where
  locked : ∀ u, s.userLogin u = true ↔ ∃ fd, s.loggingIn fd = some u
  single : ∀ fd fd' u, s.loggingIn fd = some u → s.loggingIn fd' = some u → fd = fd'

section

variable {s : State Server Uid} {fd fd' : ℕ} {c : Conn Server Uid} {u : Uid}

theorem loggingIn_self : (s.put fd c).loggingIn fd = c.phase.uid := by
  unfold State.loggingIn State.put
  dsimp only
  rw [update_self, Option.bind_some]

theorem loggingIn_of_ne (hne : fd' ≠ fd) : (s.put fd c).loggingIn fd' = s.loggingIn fd' := by
  unfold State.loggingIn State.put
  dsimp only
  rw [update_of_ne hne]

/-- No `login_handler` runs for the connection, before and after. -/
theorem Locked.quiet (h : Locked s) (hold : s.loggingIn fd = none) (hnew : c.phase.uid = none) :
    Locked (s.put fd c) := by
  have hsame : ∀ fd', (s.put fd c).loggingIn fd' = s.loggingIn fd' := by
    intro fd'
    by_cases hfd : fd' = fd
    · rw [hfd, loggingIn_self, hnew, hold]
    · exact loggingIn_of_ne hfd
  refine ⟨?_, ?_⟩
  · intro u
    simp only [hsame]
    exact h.locked u
  · intro fd₁ fd₂ u
    rw [hsame, hsame]
    exact h.single fd₁ fd₂ u

variable [DecidableEq Uid]

/-- `user_login[uid] = true` -/
theorem Locked.lock (h : Locked s) (hold : s.loggingIn fd = none) (hfree : s.userLogin u = false)
    (hnew : c.phase.uid = some u) :
    Locked { s.put fd c with userLogin := update s.userLogin u true } := by
  have hself : (s.put fd c).loggingIn fd = some u := loggingIn_self.trans hnew
  have hother : ∀ fd', s.loggingIn fd' ≠ some u := by
    intro fd' hlogin
    have hlocked := (h.locked u).mpr ⟨fd', hlogin⟩
    rw [hfree] at hlocked
    cases hlocked
  refine ⟨?_, ?_⟩
  · intro v
    show update s.userLogin u true v = true ↔ ∃ fd', (s.put fd c).loggingIn fd' = some v
    by_cases hv : v = u
    · rw [hv, update_self]
      exact ⟨fun _ => ⟨fd, hself⟩, fun _ => rfl⟩
    · rw [update_of_ne hv, h.locked v]
      constructor
      · intro ⟨fd', hlogin⟩
        have hne : fd' ≠ fd := by
          intro heq
          rw [heq, hold] at hlogin
          cases hlogin
        exact ⟨fd', (loggingIn_of_ne hne).trans hlogin⟩
      · intro ⟨fd', hlogin⟩
        have hne : fd' ≠ fd := by
          intro heq
          rw [heq, hself] at hlogin
          exact hv (Option.some.inj hlogin).symm
        exact ⟨fd', (loggingIn_of_ne hne).symm.trans hlogin⟩
  · intro fd₁ fd₂ v hfd₁ hfd₂
    have hfd₁ : (s.put fd c).loggingIn fd₁ = some v := hfd₁
    have hfd₂ : (s.put fd c).loggingIn fd₂ = some v := hfd₂
    by_cases h₁ : fd₁ = fd
    · by_cases h₂ : fd₂ = fd
      · rw [h₁, h₂]
      · rw [h₁, hself] at hfd₁
        rw [loggingIn_of_ne h₂, ← hfd₁] at hfd₂
        exact (hother fd₂ hfd₂).elim
    · rw [loggingIn_of_ne h₁] at hfd₁
      by_cases h₂ : fd₂ = fd
      · rw [h₂, hself] at hfd₂
        rw [← hfd₂] at hfd₁
        exact (hother fd₁ hfd₁).elim
      · rw [loggingIn_of_ne h₂] at hfd₂
        exact h.single fd₁ fd₂ v hfd₁ hfd₂

/-- `user_login[uid] = nil` -/
theorem Locked.unlock (h : Locked s) (hold : s.loggingIn fd = some u)
    (hnew : c.phase.uid = none) :
    Locked (({ s with userLogin := update s.userLogin u false } : State Server Uid).put fd c) := by
  have hloggingIn : ∀ fd', (s.put fd c).loggingIn fd' =
      if fd' = fd then none else s.loggingIn fd' := by
    intro fd'
    split
    · rename_i heq
      rw [heq, loggingIn_self, hnew]
    · rename_i hne
      exact loggingIn_of_ne hne
  refine ⟨?_, ?_⟩
  · intro v
    show update s.userLogin u false v = true ↔ ∃ fd', (s.put fd c).loggingIn fd' = some v
    simp only [hloggingIn]
    by_cases hv : v = u
    · rw [hv, update_self]
      constructor
      · intro hfalse
        cases hfalse
      · intro ⟨fd', hlogin⟩
        split at hlogin
        · cases hlogin
        · rename_i hne
          exact (hne (h.single fd' fd u hlogin hold)).elim
    · rw [update_of_ne hv, h.locked v]
      constructor
      · intro ⟨fd', hlogin⟩
        refine ⟨fd', ?_⟩
        rw [if_neg]
        · exact hlogin
        · intro heq
          rw [heq, hold] at hlogin
          exact hv (Option.some.inj hlogin).symm
      · intro ⟨fd', hlogin⟩
        split at hlogin
        · cases hlogin
        · exact ⟨fd', hlogin⟩
  · intro fd₁ fd₂ v hfd₁ hfd₂
    have hfd₁ : (s.put fd c).loggingIn fd₁ = some v := hfd₁
    have hfd₂ : (s.put fd c).loggingIn fd₂ = some v := hfd₂
    rw [hloggingIn] at hfd₁ hfd₂
    split at hfd₁
    · cases hfd₁
    · split at hfd₂
      · cases hfd₂
      · exact h.single fd₁ fd₂ v hfd₁ hfd₂

end

/-! ## Each step -/

structure Inv (s : State Server Uid) : Prop where
  conns : ∀ fd, ∀ c ∈ s.conns fd, c.phase.Ok c
  locks : s.multilogin = false → Locked s

/-- A client that has been told that its challenge failed is not told anything else: the write of the
master fails, because the client has closed its socket. -/
def Held (s : State Server Uid) : Action Server Uid → Prop
  | .returned fd written =>
    ∀ c ∈ s.conns fd, .status .badRequest ∈ c.sent → written = false
  | _ => True

section

variable {s s' : State Server Uid} {fd : ℕ} {c c' : Conn Server Uid} {u : Uid} {crypt : Crypt}
  {written : Bool}

theorem Inv.init (multilogin : Bool) : Inv (State.init multilogin : State Server Uid) := by
  refine ⟨?_, fun _ => ⟨?_, ?_⟩⟩
  · intro fd c hc
    cases hc
  · intro u
    constructor
    · intro hfalse
      cases hfalse
    · intro ⟨fd, hlogin⟩
      cases hlogin
  · intro fd fd' u hlogin
    cases hlogin

theorem loggingIn_eq (hc : s.conns fd = some c) : s.loggingIn fd = c.phase.uid := by
  unfold State.loggingIn
  rw [hc, Option.bind_some]

theorem conns_put (h : ∀ fd, ∀ c ∈ s.conns fd, c.phase.Ok c) (hc : c.phase.Ok c) :
    ∀ fd', ∀ c' ∈ (s.put fd c).conns fd', c'.phase.Ok c' := by
  intro fd' c' hc'
  have hc' : update s.conns fd (some c) fd' = some c' := hc'
  by_cases hfd : fd' = fd
  · rw [hfd, update_self] at hc'
    cases hc'
    exact hc
  · rw [update_of_ne hfd] at hc'
    exact h fd' c' hc'

/-- A step in which no `login_handler` begins or ends -/
theorem Inv.put (h : Inv s) (hold : s.loggingIn fd = none) (hc : c.Calm) : Inv (s.put fd c) :=
  ⟨conns_put h.conns hc.1, fun hmulti => (h.locks hmulti).quiet hold hc.2⟩

/-- The connection is not in its `login_handler`. -/
theorem loggingIn_of_phase {phase : Phase Server Uid} (hc : s.conns fd = some c)
    (hphase : c.phase = phase) (huid : phase.uid = none) : s.loggingIn fd = none := by
  rw [loggingIn_eq hc, hphase]
  exact huid

theorem Inv.callFailed (h : Inv s) (hc : s.conns fd = some c) (hold : s.loggingIn fd = none)
    (hlogin : ∀ server uid secret, c.phase ≠ .login server uid secret)
    (hended : c.phase ≠ .ended) : Inv (s.put fd (c.finish none)) := by
  have hok := h.conns fd c hc
  cases hphase : c.phase with
  | login server uid secret => exact (hlogin server uid secret hphase).elim
  | ended => exact (hended hphase).elim
  | replied reply =>
    rw [hphase] at hok
    cases reply with
    | socketError => exact h.put hold (Conn.Calm.finish_nil hok.1)
    | ok => exact h.put hold (Conn.Calm.finish_nil hok.1)
    | failed err =>
      obtain ⟨hnone | hrefused, -⟩ := hok
      · exact h.put hold (Conn.Calm.finish_nil hnone)
      · refine h.put hold (Conn.Calm.finish ?_ ?_)
        · rw [hrefused]
          exact Nat.le_refl 1
        · intro subid hsuccess
          rw [hrefused] at hsuccess
          cases List.mem_singleton.mp hsuccess
  | _ =>
    rw [hphase] at hok
    exact h.put hold (Conn.Calm.finish_nil hok.1)

theorem Phase.Ok.statuses {phase : Phase Server Uid} (h : phase.Ok c) :
    c.statuses.length ≤ 1 ∧
      (c.statuses ≠ [] → c.closed = true ∨ ∃ err, phase = .replied (.failed err)) ∧
      ∀ subid, .status (.success subid) ∈ c.statuses →
        c.challenged = true ∧ c.authorized = true ∧ c.loggedIn = true := by
  have hnil : c.statuses = [] → c.statuses.length ≤ 1 ∧
      (c.statuses ≠ [] → c.closed = true ∨ ∃ err, phase = .replied (.failed err)) ∧
      ∀ subid, .status (.success subid) ∈ c.statuses →
        c.challenged = true ∧ c.authorized = true ∧ c.loggedIn = true := by
    intro hnone
    rw [hnone]
    exact ⟨Nat.zero_le 1, fun hne => (hne rfl).elim, fun _ hmem => nomatch hmem⟩
  cases phase with
  | ended => exact ⟨h.1, fun _ => .inl h.2.1, h.2.2⟩
  | replied reply =>
    cases reply with
    | socketError => exact hnil h.1
    | ok => exact hnil h.1
    | failed err =>
      obtain ⟨hnone | hrefused, -⟩ := h
      · exact hnil hnone
      · refine ⟨?_, fun _ => .inr ⟨err, rfl⟩, ?_⟩
        · rw [hrefused]
          exact Nat.le_refl 1
        · intro subid hsuccess
          rw [hrefused] at hsuccess
          cases List.mem_singleton.mp hsuccess
  | _ => exact hnil h.1

variable [DecidableEq Uid]

/-- The slave has returned. -/
theorem Inv.accept {reply : Reply Server Uid} (h : Inv s) (hc : s.conns fd = some c)
    (hphase : c.phase = .replied reply)
    (hheld : .status .badRequest ∈ c.sent → written = false) :
    Inv (s.accept fd c written reply) := by
  have hok := h.conns fd c hc
  rw [hphase] at hok
  have hold : s.loggingIn fd = none := by
    rw [loggingIn_eq hc, hphase]
    rfl
  unfold State.accept
  split
  · exact h.put hold (Conn.Calm.finish_nil hok.1)
  · rename_i err
    obtain ⟨hnone | hrefused, -⟩ := hok
    · exact h.put hold (Conn.Calm.verdict hnone nofun)
    · have hmem : Line.status .badRequest ∈ c.statuses := by
        rw [hrefused]
        exact List.mem_singleton_self _
      rw [hheld (List.mem_of_mem_filter hmem)]
      refine h.put hold (Conn.Calm.finish ?_ ?_)
      · rw [hrefused]
        exact Nat.le_refl 1
      · intro subid hsuccess
        rw [hrefused] at hsuccess
        cases List.mem_singleton.mp hsuccess
  · rename_i server uid secret
    obtain ⟨hnone, hrest⟩ := hok
    have hlogin : Phase.Ok { c with phase := .login server uid secret }
        (.login server uid secret) := ⟨hnone, hrest⟩
    dsimp only
    split
    · rename_i hmulti
      refine ⟨conns_put h.conns hlogin, fun hsingle => ?_⟩
      have hsingle : s.multilogin = false := hsingle
      rw [hmulti] at hsingle
      cases hsingle
    · rename_i hmulti
      split
      · exact h.put hold (Conn.Calm.finish_nil hnone)
      · rename_i u
        split
        · exact h.put hold (Conn.Calm.verdict hnone nofun)
        · rename_i hfree
          refine ⟨conns_put h.conns hlogin, fun hsingle => ?_⟩
          exact (h.locks hsingle).lock hold (Bool.eq_false_iff.mpr hfree) rfl

/-- The `login_handler` has returned. -/
theorem Inv.unlock {login : Login} {uid : Option Uid} {server : Server} {secret : Text} (h : Inv s)
    (hc : s.conns fd = some c) (hphase : c.phase = .login server uid secret) :
    Inv (s.unlock crypt fd c written login uid) := by
  have hok := h.conns fd c hc
  rw [hphase] at hok
  obtain ⟨hnone, -, hchallenged, hauthorized⟩ := hok
  have hold : s.loggingIn fd = uid := by
    rw [loggingIn_eq hc, hphase]
    rfl
  unfold State.unlock
  split
  · exact h.put hold (Conn.Calm.finish_nil hnone)
  · rename_i u
    have hfree : ∀ c' : Conn Server Uid, c'.Calm →
        Inv (({ s with userLogin := update s.userLogin u false } : State Server Uid).put fd c') := by
      intro c' hc'
      exact ⟨conns_put h.conns hc'.1, fun hsingle => (h.locks hsingle).unlock hold hc'.2⟩
    dsimp only
    split
    · refine hfree _ (Conn.Calm.verdict hnone ?_)
      exact fun _ _ => ⟨hchallenged, hauthorized, rfl⟩
    · exact hfree _ (Conn.Calm.finish_nil hnone)
    · exact hfree _ (Conn.Calm.verdict hnone nofun)

theorem Inv.step {a : Action Server Uid} (h : Inv s) (hheld : Held s a)
    (hstep : s.step crypt a = some s') : Inv s' := by
  cases a with
  | accept fd =>
    unfold State.step at hstep
    dsimp only at hstep
    split at hstep
    · rename_i hnone
      cases hstep
      refine h.put ?_ Conn.Calm.new
      unfold State.loggingIn
      rw [hnone]
      rfl
    · cases hstep
  | started fd challenge ok written =>
    unfold State.step at hstep
    obtain ⟨c, hc, hstep⟩ := Option.bind_eq_some_iff.mp hstep
    split at hstep
    · rename_i hphase
      cases hstep
      have hok := h.conns fd c hc
      rw [hphase] at hok
      exact h.put (loggingIn_of_phase hc hphase rfl) (Conn.Calm.started hok.1 hok.2)
    · cases hstep
  | handshake fd line serverkey written =>
    unfold State.step at hstep
    obtain ⟨c, hc, hstep⟩ := Option.bind_eq_some_iff.mp hstep
    split at hstep
    · rename_i challenge hphase
      cases hstep
      have hok := h.conns fd c hc
      rw [hphase] at hok
      exact h.put (loggingIn_of_phase hc hphase rfl) (Conn.Calm.handshake hok.1 hok.2)
    · cases hstep
  | response fd line written =>
    unfold State.step at hstep
    obtain ⟨c, hc, hstep⟩ := Option.bind_eq_some_iff.mp hstep
    split at hstep
    · rename_i challenge secret hphase
      cases hstep
      have hok := h.conns fd c hc
      rw [hphase] at hok
      refine h.put (loggingIn_of_phase hc hphase rfl) (Conn.Calm.response hok.1 hok.2 ?_)
      intro secret' htoken
      dsimp only
      rw [htoken]
    · cases hstep
  | token fd line =>
    unfold State.step at hstep
    obtain ⟨c, hc, hstep⟩ := Option.bind_eq_some_iff.mp hstep
    split at hstep
    · rename_i secret hphase
      cases hstep
      have hok := h.conns fd c hc
      rw [hphase] at hok
      exact h.put (loggingIn_of_phase hc hphase rfl) (Conn.Calm.token hok.1 hok.2.1 hok.2.2)
    · cases hstep
  | auth fd result =>
    unfold State.step at hstep
    obtain ⟨c, hc, hstep⟩ := Option.bind_eq_some_iff.mp hstep
    split at hstep
    · rename_i secret token hphase
      have hok := h.conns fd c hc
      rw [hphase] at hok
      have hold : s.loggingIn fd = none := loggingIn_of_phase hc hphase rfl
      obtain ⟨hnone, hclosed, hchallenged⟩ := hok
      split at hstep
      · cases hstep
        exact h.put hold ⟨⟨.inl (turn_none.trans hnone), hclosed⟩, rfl⟩
      · cases hstep
        exact h.put hold ⟨⟨turn_none.trans hnone, hclosed, hchallenged, rfl⟩, rfl⟩
    · cases hstep
  | returned fd written =>
    unfold State.step at hstep
    obtain ⟨c, hc, hstep⟩ := Option.bind_eq_some_iff.mp hstep
    split at hstep
    · rename_i reply hphase
      cases hstep
      exact h.accept hc hphase (hheld c hc)
    · cases hstep
  | callFailed fd =>
    unfold State.step at hstep
    obtain ⟨c, hc, hstep⟩ := Option.bind_eq_some_iff.mp hstep
    split at hstep
    · cases hstep
    · cases hstep
    · rename_i hlogin hended
      cases hstep
      refine h.callFailed hc ?_ hlogin hended
      rw [loggingIn_eq hc]
      cases hphase : c.phase with
      | login server uid secret => exact (hlogin server uid secret hphase).elim
      | _ => rfl
  | login fd login written =>
    unfold State.step at hstep
    obtain ⟨c, hc, hstep⟩ := Option.bind_eq_some_iff.mp hstep
    split at hstep
    · rename_i server uid secret hphase
      cases hstep
      exact h.unlock hc hphase
    · cases hstep

/-! ## The verdicts -/

end

instance (s : State Server Uid) : (a : Action Server Uid) → Decidable (Held s a)
  | .returned fd written =>
    inferInstanceAs (Decidable (∀ c ∈ s.conns fd, .status .badRequest ∈ c.sent → written = false))
  | .accept _ | .started .. | .handshake .. | .response .. | .token .. | .auth .. | .callFailed _
  | .login .. => inferInstanceAs (Decidable True)

/-- Text that is sent as it is -/
def plain : Crypt where
  base64encode := id
  base64decode := some
  dhexchange := some
  dhsecret clientkey serverkey := some (clientkey ++ serverkey)
  hmac64 challenge _ := challenge
  desdecode _ text := some text

/-- A client up to its answer to the challenge -/
def challenge (fd : ℕ) (hmac : Text) : List (Action ℕ ℕ) :=
  [.accept fd, .started fd [1] true true,
    .handshake fd (some [1, 2, 3, 4, 5, 6, 7, 8]) [9] true, .response fd (some hmac) true]

end SkynetEureka.LoginServer
