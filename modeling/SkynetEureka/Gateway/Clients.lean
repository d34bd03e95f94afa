import SkynetEureka.Lib.Run
import SkynetEureka.Gateway.Tcpservice

/-!
# The clients of the gate

tcpserver.lua counts the clients that it has let in, until their close or error event. What is
started is told to the socket thread.
-/

namespace SkynetEureka.Gateway

open Lib Function

/-- `CMD.accept`, without the socket; `none` when the assertion fails. -/
def Tcpservice.accept (s : Tcpservice) (fd : ℤ) : Option Tcpservice :=
  (s.connection fd).map fun _ => { s with connection := update s.connection fd (some none) }

/-- The listen socket and the service; `started` are the sockets that have been started, and `taken`
those ids that are in use. -/
structure Server where
  socket : Option ℤ
  service : Tcpservice
  started : List ℤ
  taken : ℤ → Bool

/-- What comes to the service: a socket event, or a command. -/
inductive Message where
  | connect (fd : ℤ)
  | data (fd : ℤ) (msg : List UInt8)
  /-- "more", with what is in the queue -/
  | more (packages : List (ℤ × List UInt8))
  | close (fd : ℤ)
  | error (fd : ℤ)
  | openclient (fd : ℤ)
  | kick (fd : ℤ)
  | forward (agent : ℕ) (fd : ℤ)
  | accept (fd : ℤ)

namespace Server

/-- `CMD.open` has listened. -/
def listen (maxclient : ℕ) (socket : ℤ) : Server where
  socket := some socket
  service := ⟨maxclient, 0, fun _ => none, fun _ => none⟩
  started := [socket]
  taken := update (fun _ => false) socket true

variable (s : Server)

/-- `tcpserver.openclient` -/
def openclient (fd : ℤ) : Server :=
  if s.service.client fd = some true then { s with started := s.started ++ [fd] } else s

/-- `CMD.forward`, `CMD.accept`: the socket is started, when the assertion has not failed. -/
def forwarded (fd : ℤ) : Option Tcpservice → Server
  | none => s
  | some service => { s with service := service }.openclient fd

/-- An id is in use until its close or error event, that of the listen socket until its close. -/
def step : Message → Option Server
  | .connect fd =>
    if s.taken fd then none
    else some { s with service := (s.service.msgOpen fd).1, taken := update s.taken fd true }
  | .data fd msg => some { s with service := (s.service.msgData fd msg).1 }
  | .more packages =>
    some { s with
      service := packages.foldl (fun service package =>
        (service.msgData package.1 package.2).1) s.service }
  | .close fd =>
    if s.socket = some fd then
      some { s with socket := none, taken := update s.taken fd false }
    else
      some { s with service := (s.service.msgClose fd).1, taken := update s.taken fd false }
  | .error fd =>
    if s.socket = some fd then some s
    else some { s with service := (s.service.msgError fd).1, taken := update s.taken fd false }
  | .openclient fd => some (s.openclient fd)
  | .kick fd => some { s with service := s.service.kick fd }
  | .forward agent fd => some (s.forwarded fd (s.service.forward agent fd))
  | .accept fd => some (s.forwarded fd (s.service.accept fd))

end Server

namespace Tcpservice

/-- The sockets that are not `nil` in `connection` of tcpserver.lua -/
def clients (s : Tcpservice) : Set ℤ := {fd | s.client fd ≠ none}

/-- The clients are counted, there are not too many of them, and each has its connection, so that
`handler.message` finds it. -/
structure Counts (s : Tcpservice) : Prop where
  finite : s.clients.Finite
  number : s.clientNumber = s.clients.ncard
  le : s.clientNumber ≤ s.maxclient
  connection : ∀ fd, s.client fd ≠ none → s.connection fd ≠ none

variable {s : Tcpservice} {fd : ℤ}

/-- A message changes no table. -/
theorem msgData_fst {msg : List UInt8} : (s.msgData fd msg).1 = s := by
  unfold msgData
  split
  · split <;> rfl
  · rfl

theorem foldl_msgData {packages : List (ℤ × List UInt8)} :
    packages.foldl (fun service package => (msgData service package.1 package.2).1) s = s := by
  induction packages with
  | nil => rfl
  | cons package packages ih =>
    rw [List.foldl_cons, msgData_fst]
    exact ih

theorem Counts.kick (hs : s.Counts) : (s.kick fd).Counts := by
  unfold Tcpservice.kick closeclient
  by_cases hopen : s.client fd = some true
  · rw [if_pos hopen]
    have hsame : ∀ fd', update s.client fd (some false) fd' ≠ none ↔ s.client fd' ≠ none := by
      intro fd'
      by_cases heq : fd' = fd
      · rw [heq, update_self, hopen]
        exact ⟨fun _ => nofun, fun _ => nofun⟩
      · rw [update_of_ne heq]
    have hclients : clients { s with client := update s.client fd (some false) } = s.clients :=
      Set.ext hsame
    refine ⟨?_, ?_, hs.le, fun fd' hne => hs.connection fd' ((hsame fd').mp hne)⟩
    · rw [hclients]
      exact hs.finite
    · rw [hclients]
      exact hs.number
  · rw [if_neg hopen]
    exact hs

/-- A command that changes the agent of a connection -/
theorem Counts.setAgent (hs : s.Counts) (agent : Option ℕ) :
    Counts { s with connection := update s.connection fd (some agent) } := by
  refine ⟨hs.finite, hs.number, hs.le, fun fd' hne => ?_⟩
  show update s.connection fd (some agent) fd' ≠ none
  by_cases heq : fd' = fd
  · rw [heq, update_self]
    exact nofun
  · rw [update_of_ne heq]
    exact hs.connection fd' hne

theorem Counts.msgOpen (hs : s.Counts) (hnew : s.client fd = none) : (s.msgOpen fd).1.Counts := by
  unfold Tcpservice.msgOpen
  by_cases hfull : (s.maxclient : ℤ) ≤ s.clientNumber
  · rw [if_pos hfull]
    exact hs
  · rw [if_neg hfull]
    dsimp only
    have hclients : clients { s with
        clientNumber := s.clientNumber + 1
        client := update s.client fd (some true)
        connection := update s.connection fd (some none) } = insert fd s.clients := by
      ext fd'
      show update s.client fd (some true) fd' ≠ none ↔ fd' = fd ∨ s.client fd' ≠ none
      by_cases heq : fd' = fd
      · rw [heq, update_self]
        exact ⟨fun _ => .inl rfl, fun _ => nofun⟩
      · rw [update_of_ne heq]
        exact ⟨.inr, fun h => h.resolve_left heq⟩
    have hnot : fd ∉ s.clients := by
      intro hmem
      have hne : s.client fd ≠ none := hmem
      exact hne hnew
    refine ⟨?_, ?_, ?_, fun fd' hne => ?_⟩
    · rw [hclients]
      exact hs.finite.insert fd
    · rw [hclients, Set.ncard_insert_of_notMem hnot hs.finite, Nat.cast_succ]
      exact congrArg (· + 1) hs.number
    · exact Int.add_one_le_of_lt (not_le.mp hfull)
    · show update s.connection fd (some none) fd' ≠ none
      by_cases heq : fd' = fd
      · rw [heq, update_self]
        exact nofun
      · rw [update_of_ne heq]
        have hold : update s.client fd (some true) fd' ≠ none := hne
        rw [update_of_ne heq] at hold
        exact hs.connection fd' hold

theorem Counts.closeFd (hs : s.Counts) : (s.closeFd fd).Counts := by
  have hconnection : ∀ fd', fd' ≠ fd → s.client fd' ≠ none →
      update s.connection fd none fd' ≠ none := by
    intro fd' heq hne
    rw [update_of_ne heq]
    exact hs.connection fd' hne
  unfold Tcpservice.closeFd
  dsimp only
  cases hclient : s.client fd with
  | none =>
    refine ⟨hs.finite, hs.number, hs.le, fun fd' hne => hconnection fd' ?_ hne⟩
    intro heq
    rw [heq] at hne
    exact hne hclient
  | some open' =>
    have hmem : fd ∈ s.clients := by
      show s.client fd ≠ none
      rw [hclient]
      exact nofun
    have hclients : clients { s with
        connection := update s.connection fd none
        client := update s.client fd none
        clientNumber := s.clientNumber - 1 } = s.clients \ {fd} := by
      ext fd'
      show update s.client fd none fd' ≠ none ↔ s.client fd' ≠ none ∧ fd' ≠ fd
      by_cases heq : fd' = fd
      · rw [heq, update_self]
        exact ⟨fun h => absurd rfl h, fun h => absurd rfl h.2⟩
      · rw [update_of_ne heq]
        exact ⟨fun h => ⟨h, heq⟩, And.left⟩
    have hcard := Set.ncard_sdiff_singleton_add_one hmem hs.finite
    have hnumber := hs.number
    refine ⟨?_, ?_, ?_, fun fd' hne => ?_⟩
    · rw [hclients]
      exact hs.finite.sdiff
    · rw [hclients]
      show s.clientNumber - 1 = _
      omega
    · exact (Int.sub_le_self _ Int.one_nonneg).trans hs.le
    · have hne' : fd' ∈ s.clients \ {fd} := hclients ▸ hne
      exact hconnection fd' hne'.2 hne'.1

end Tcpservice

/-! ## Runs -/

/-- What holds between two messages. -/
structure Serving (s : Server) : Prop where
  counts : s.service.Counts
  taken : ∀ fd, s.service.client fd ≠ none → s.taken fd = true
  socket : ∀ fd ∈ s.socket, s.taken fd = true ∧ s.service.client fd = none

variable {s s' : Server} {fd : ℤ}

/-- A client that is closed is no longer there, and the others are as they were. -/
theorem closeFd_client {service : Tcpservice} (fd' : ℤ) :
    (service.closeFd fd).client fd' = if fd' = fd then none else service.client fd' := by
  unfold Tcpservice.closeFd
  dsimp only
  cases hclient : service.client fd with
  | none =>
    by_cases heq : fd' = fd
    · rw [if_pos heq, heq, hclient]
    · rw [if_neg heq]
  | some open' =>
    show update service.client fd none fd' = _
    by_cases heq : fd' = fd
    · rw [if_pos heq, heq, update_self]
    · rw [if_neg heq, update_of_ne heq]

theorem Serving.connect (hs : Serving s) (hnew : s.taken fd = false) :
    Serving { s with service := (s.service.msgOpen fd).1, taken := update s.taken fd true } := by
  have hnone : s.service.client fd = none := by
    by_contra hne
    rw [hs.taken fd hne] at hnew
    cases hnew
  have hclient : ∀ fd' ≠ fd, (s.service.msgOpen fd).1.client fd' = s.service.client fd' := by
    intro fd' hne
    unfold Tcpservice.msgOpen
    split
    · rfl
    · exact update_of_ne hne _ _
  refine ⟨hs.counts.msgOpen hnone, fun fd' hne => ?_, fun l hl => ?_⟩
  · show update s.taken fd true fd' = true
    by_cases heq : fd' = fd
    · rw [heq, update_self]
    · rw [update_of_ne heq]
      exact hs.taken fd' ((hclient fd' heq) ▸ hne)
  · obtain ⟨htaken, hno⟩ := hs.socket l hl
    have hl' : l ≠ fd := by
      intro heq
      rw [heq, hnew] at htaken
      cases htaken
    refine ⟨?_, (hclient l hl').trans hno⟩
    show update s.taken fd true l = true
    rw [update_of_ne hl']
    exact htaken

/-- The close or error event of a client -/
theorem Serving.closeFd (hs : Serving s) (hne : s.socket ≠ some fd) :
    Serving { s with service := s.service.closeFd fd, taken := update s.taken fd false } := by
  refine ⟨hs.counts.closeFd, fun fd' hopen => ?_, fun l hl => ?_⟩
  · have hclient := @closeFd_client fd s.service fd'
    show update s.taken fd false fd' = true
    by_cases heq : fd' = fd
    · rw [if_pos heq] at hclient
      exact absurd hclient hopen
    · rw [if_neg heq] at hclient
      rw [update_of_ne heq]
      exact hs.taken fd' (hclient ▸ hopen)
  · have hl' : l ≠ fd := fun heq => hne (heq ▸ hl)
    obtain ⟨htaken, hno⟩ := hs.socket l hl
    refine ⟨?_, ?_⟩
    · show update s.taken fd false l = true
      rw [update_of_ne hl']
      exact htaken
    · rw [closeFd_client, if_neg hl']
      exact hno

/-- The listen socket is closed. -/
theorem Serving.closeSocket (hs : Serving s) (heq : s.socket = some fd) :
    Serving { s with socket := none, taken := update s.taken fd false } := by
  refine ⟨hs.counts, fun fd' hopen => ?_, nofun⟩
  obtain ⟨-, hno⟩ := hs.socket fd heq
  have hne : fd' ≠ fd := fun h => hopen (h ▸ hno)
  show update s.taken fd false fd' = true
  rw [update_of_ne hne]
  exact hs.taken fd' hopen

/-- Commands leave the ids as they are, and change no client but to `false`. -/
theorem Serving.setService (hs : Serving s) {service : Tcpservice} (hcounts : service.Counts)
    (hclient : ∀ fd, service.client fd ≠ none ↔ s.service.client fd ≠ none) {started : List ℤ} :
    Serving { s with service := service, started := started } := by
  refine ⟨hcounts, fun fd hne => hs.taken fd ((hclient fd).mp hne), fun l hl => ?_⟩
  obtain ⟨htaken, hno⟩ := hs.socket l hl
  refine ⟨htaken, ?_⟩
  by_contra hne
  exact (hclient l).mp hne hno

theorem Serving.forwarded (hs : Serving s) (agent : Option ℕ) :
    Serving (s.forwarded fd ((s.service.connection fd).map fun _ =>
      { s.service with connection := update s.service.connection fd (some agent) })) := by
  cases hconnection : s.service.connection fd with
  | none => exact hs
  | some old =>
    show Serving (Server.openclient _ fd)
    unfold Server.openclient
    split
    · exact hs.setService (hs.counts.setAgent agent) fun _ => Iff.rfl
    · exact hs.setService (hs.counts.setAgent agent) fun _ => Iff.rfl

theorem kick_client {service : Tcpservice} (fd' : ℤ) :
    (service.kick fd).client fd' ≠ none ↔ service.client fd' ≠ none := by
  unfold Tcpservice.kick Tcpservice.closeclient
  split
  · rename_i hopen
    show update service.client fd (some false) fd' ≠ none ↔ _
    by_cases heq : fd' = fd
    · rw [heq, update_self, hopen]
      exact ⟨fun _ => nofun, fun _ => nofun⟩
    · rw [update_of_ne heq]
  · exact Iff.rfl

theorem Serving.step {message : Message} (hs : Serving s) (hstep : s.step message = some s') :
    Serving s' := by
  cases message with
  | connect fd =>
    unfold Server.step at hstep
    dsimp only at hstep
    cases htaken : s.taken fd with
    | true =>
      rw [if_pos htaken] at hstep
      cases hstep
    | false =>
      rw [if_neg (by rw [htaken]; exact nofun)] at hstep
      cases hstep
      exact hs.connect htaken
  | data fd msg =>
    cases hstep
    rw [Tcpservice.msgData_fst]
    exact hs
  | more packages =>
    cases hstep
    rw [Tcpservice.foldl_msgData]
    exact hs
  | close fd =>
    unfold Server.step at hstep
    dsimp only at hstep
    by_cases heq : s.socket = some fd
    · rw [if_pos heq] at hstep
      cases hstep
      exact hs.closeSocket heq
    · rw [if_neg heq] at hstep
      cases hstep
      exact hs.closeFd heq
  | error fd =>
    unfold Server.step at hstep
    dsimp only at hstep
    by_cases heq : s.socket = some fd
    · rw [if_pos heq] at hstep
      cases hstep
      exact hs
    · rw [if_neg heq] at hstep
      cases hstep
      exact hs.closeFd heq
  | openclient fd =>
    cases hstep
    unfold Server.openclient
    split
    · exact hs.setService hs.counts fun _ => Iff.rfl
    · exact hs
  | kick fd =>
    cases hstep
    exact hs.setService hs.counts.kick kick_client
  | forward agent fd =>
    cases hstep
    exact hs.forwarded (some agent)
  | accept fd =>
    cases hstep
    exact hs.forwarded none

/-- **The gate counts its clients.** -/
theorem clients_counted {maxclient : ℕ} {socket : ℤ} {messages : List Message}
    (hrun : run Server.step (.listen maxclient socket) messages = some s) : s.service.Counts := by
  have hclients : Tcpservice.clients (Server.listen maxclient socket).service = ∅ :=
    Set.eq_empty_of_forall_notMem fun fd hmem => hmem rfl
  have hcounts : (Server.listen maxclient socket).service.Counts := by
    refine ⟨?_, ?_, Int.natCast_nonneg maxclient, fun fd hne => absurd rfl hne⟩
    · rw [hclients]
      exact Set.finite_empty
    · rw [hclients, Set.ncard_empty]
      rfl
  have hinit : Serving (.listen maxclient socket) := by
    refine ⟨hcounts, fun fd hne => absurd rfl hne, fun l hl => ?_⟩
    cases hl
    refine ⟨?_, rfl⟩
    show update (fun _ => false) socket true socket = true
    exact update_self _ _ _
  exact (run_invariant_of_step (fun s a s' h hstep => h.step hstep) hinit hrun).counts

/-- One client is let in and kicked, another one is refused; both are closed, and a third one comes. -/
theorem clients_counted_refused : ∃ s,
    run Server.step (.listen 1 3) [.connect 4, .forward 9 4, .data 4 [1], .connect 5, .kick 4,
      .close 5, .close 4, .connect 6] = some s ∧ s.service.clientNumber = 1 ∧ s.service.Counts := by
  obtain ⟨s, hrun, hnumber⟩ : ∃ s, run Server.step (.listen 1 3) [.connect 4, .forward 9 4,
      .data 4 [1], .connect 5, .kick 4, .close 5, .close 4, .connect 6] = some s ∧
        s.service.clientNumber = 1 := ⟨_, rfl, rfl⟩
  exact ⟨s, hrun, hnumber, clients_counted hrun⟩

end SkynetEureka.Gateway
