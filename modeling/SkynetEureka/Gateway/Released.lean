import SkynetEureka.Gateway.Watchdog

/-!
# Agents are released

An agent is in `agent`, or it is being closed, or it has been told to disconnect
(`agents_released`). One thing is in the way: `SOCKET.open` records the agent when the new service
is there, and an event "close" that has come before has found nothing.
-/

namespace SkynetEureka.Gateway

open Lib Function

/-- What an event says of the socket; one that is open is not opened. -/
def Event.next (fd : ℤ) (opened : Bool) : Event → Option Bool
  | .connect fd' => if fd' = fd then (if opened then none else some true) else some opened
  | .close fd' => some (if fd' = fd then false else opened)
  | .error fd' => some (if fd' = fd then false else opened)
  | .data _ _ => some opened
  | .warning _ _ => some opened

/-- The event ends the socket. -/
def Event.Ends (fd : ℤ) (e : Event) : Prop := e = .close fd ∨ e = .error fd

instance (fd : ℤ) (e : Event) : Decidable (e.Ends fd) :=
  inferInstanceAs (Decidable (e = .close fd ∨ e = .error fd))

/-- The end of a socket is not handled before its agent is there. -/
def State.Recorded (s : State) : Action → Prop
  | .socket => ∀ e ∈ s.events.head?, ∀ fd ∈ s.launching, ¬ e.Ends fd
  | _ => True

instance (s : State) : (a : Action) → Decidable (s.Recorded a)
  | .socket => inferInstanceAs (Decidable (∀ e ∈ s.events.head?, ∀ fd ∈ s.launching, ¬ e.Ends fd))
  | .msgOpen _ | .msgData _ _ | .msgClose _ | .msgError _ | .msgWarning _ _ | .launched _ _
  | .start _ | .forward _ | .reply _ | .started _ | .quit _ | .close _ | .kick _ _ | .kicked _ _
  | .disconnect _ => inferInstanceAs (Decidable True)

/-- The socket has been closed, and all its events have been handled to the end. -/
structure State.Handled (s : State) (fd : ℤ) : Prop where
  client : s.tcpservice.client fd = none
  events : ∀ e ∈ s.events, e.fd ≠ fd
  launching : fd ∉ s.launching
  starting : ∀ a ∈ s.starting, ∀ ag ∈ s.agents[a]?, ag.clientFd ≠ fd
  kicks : ∀ a, (fd, a) ∉ s.kicks
  kicked : ∀ a, (fd, a) ∉ s.kicked

/-- What an agent keeps when it starts. -/
def Agent.record (ag : Agent) : ℤ × ℕ := (ag.clientFd, ag.disconnects)

/-- In how many places the agent is. -/
def State.places (s : State) (a : ℕ) (ag : Agent) : ℕ :=
  (if s.agent ag.clientFd = some a then 1 else 0) + s.kicks.count (ag.clientFd, a) +
    s.kicked.count (ag.clientFd, a) + ag.disconnects

/-- An agent is in one place, which has its socket; a socket that is open for the watchdog is open
in `tcpservice`, or its end is on its way. -/
structure Tracked (s : State) : Prop where
  follows : ∀ fd, ∃ opened, (opened = false → fd ∉ s.launching ∧ s.agent fd = none) ∧
    s.events.foldlM (Event.next fd) opened = some (s.tcpservice.client fd).isSome
  launching : s.launching.Nodup
  fresh : ∀ fd ∈ s.launching, s.agent fd = none
  known : ∀ fd a, s.agent fd = some a ∨ (fd, a) ∈ s.kicks ∨ (fd, a) ∈ s.kicked →
    ∃ ag, s.agents[a]? = some ag ∧ ag.clientFd = fd
  once : ∀ a ag, s.agents[a]? = some ag → s.places a ag = 1
  failed : ∀ a ∈ s.failed, a < s.agents.length

section

variable {s s' : State}

/-- `tcpservice` has taken a message. -/
theorem Tracked.report (h : Tracked s) {tcpservice : Tcpservice} {events : List Event}
    (hevents : ∀ fd, events.foldlM (Event.next fd) (s.tcpservice.client fd).isSome =
      some (tcpservice.client fd).isSome) : Tracked (s.report (tcpservice, events)) where
  follows fd := by
    obtain ⟨opened, hopened, hfollows⟩ := h.follows fd
    refine ⟨opened, hopened, ?_⟩
    show (s.events ++ events).foldlM _ _ = some (tcpservice.client fd).isSome
    rw [List.foldlM_append, hfollows]
    exact hevents fd
  launching := h.launching
  fresh := h.fresh
  known := h.known
  once := h.once
  failed := h.failed

/-- An agent goes on by itself. -/
theorem Tracked.modify (h : Tracked s) (a : ℕ) {f : Agent → Agent}
    (hf : ∀ ag, (f ag).record = ag.record) : Tracked { s with agents := s.agents.modify a f } := by
  refine { h with known := fun fd a' ha' => ?_, once := ?_, failed := fun a' ha' => ?_ }
  · obtain ⟨ag, hget, hfd⟩ := h.known fd a' ha'
    show ∃ ag, (s.agents.modify a f)[a']? = some ag ∧ _
    rw [List.getElem?_modify, hget]
    refine ⟨_, rfl, ?_⟩
    split_ifs
    · exact (congrArg Prod.fst (hf ag)).trans hfd
    · exact hfd
  · intro a' ag hget
    change (s.agents.modify a f)[a']? = some ag at hget
    rw [List.getElem?_modify] at hget
    obtain ⟨ag', hget', heq⟩ := Option.map_eq_some_iff.mp hget
    have hplaces := h.once a' ag' hget'
    have hsame : ag.record = ag'.record := by
      rw [← heq]
      split_ifs
      · exact hf ag'
      · rfl
    obtain ⟨hfd, hdisconnects⟩ := Prod.mk.inj hsame
    unfold State.places at *
    dsimp only
    rwa [hfd, hdisconnects]
  · show a' < (s.agents.modify a f).length
    rw [List.length_modify]
    exact h.failed a' ha'

/-- An agent is taken out of `agent`. -/
theorem Tracked.closeAgent (h : Tracked s) (fd : ℤ) : Tracked (s.closeAgent fd) := by
  unfold State.closeAgent
  cases hagent : s.agent fd with
  | none => exact h
  | some a =>
    constructor
    · intro fd'
      obtain ⟨opened, hopened, hfollows⟩ := h.follows fd'
      refine ⟨opened, fun hfalse => ⟨(hopened hfalse).1, ?_⟩, hfollows⟩
      show update s.agent fd none fd' = none
      by_cases heq : fd' = fd
      · rw [heq, update_self]
      · rw [update_of_ne heq]
        exact (hopened hfalse).2
    · exact h.launching
    · intro fd' hmem
      show update s.agent fd none fd' = none
      by_cases heq : fd' = fd
      · rw [heq, update_self]
      · rw [update_of_ne heq]
        exact h.fresh fd' hmem
    · intro fd' a' ha'
      change update s.agent fd none fd' = some a' ∨ (fd', a') ∈ s.kicks ++ [(fd, a)] ∨ _ at ha'
      rw [List.mem_append, List.mem_singleton] at ha'
      rcases ha' with ha' | (ha' | heq) | ha'
      · by_cases heq : fd' = fd
        · rw [heq, update_self] at ha'
          cases ha'
        · rw [update_of_ne heq] at ha'
          exact h.known fd' a' (Or.inl ha')
      · exact h.known fd' a' (Or.inr (Or.inl ha'))
      · cases heq
        exact h.known fd a (Or.inl hagent)
      · exact h.known fd' a' (Or.inr (Or.inr ha'))
    · intro a' ag hget
      have hplaces := h.once a' ag hget
      unfold State.places at *
      show (if update s.agent fd none ag.clientFd = some a' then 1 else 0) +
        (s.kicks ++ [(fd, a)]).count (ag.clientFd, a') + s.kicked.count (ag.clientFd, a') +
          ag.disconnects = 1
      rw [List.count_append, List.count_singleton]
      by_cases heq : ag.clientFd = fd
      · rw [heq, update_self]
        rw [heq, hagent] at hplaces
        by_cases ha : a = a'
        · subst ha
          rw [if_pos rfl] at hplaces
          rw [if_neg nofun, if_pos (beq_self_eq_true _)]
          omega
        · rw [if_neg fun heq => ha (Option.some.inj heq)] at hplaces
          rw [if_neg nofun, if_neg fun heq => ha (congrArg Prod.snd (eq_of_beq heq))]
          exact hplaces
      · rw [update_of_ne heq, if_neg fun hbeq => heq (congrArg Prod.fst (eq_of_beq hbeq)).symm]
        exact hplaces
    · exact h.failed

/-- The end of a socket without an agent. -/
theorem Tracked.ends (h : Tracked s) {e : Event} {events : List Event} {fd : ℤ}
    (hevents : s.events = e :: events) (hends : e.Ends fd) (hfd : fd ∉ s.launching)
    (hagent : s.agent fd = none) : Tracked { s with events := events } := by
  refine { h with follows := fun fd' => ?_ }
  obtain ⟨opened, hopened, hfollows⟩ := h.follows fd'
  have hnext : e.next fd' opened = some (if fd = fd' then false else opened) := by
    rcases hends with rfl | rfl
    all_goals rfl
  rw [hevents, List.foldlM_cons, hnext] at hfollows
  refine ⟨_, fun hfalse => ?_, hfollows⟩
  by_cases heq : fd = fd'
  · rw [← heq]
    exact ⟨hfd, hagent⟩
  · rw [if_neg heq] at hfalse
    exact hopened hfalse

theorem closeAgent_events (fd : ℤ) (events : List Event) :
    { s with events := events }.closeAgent fd = { s.closeAgent fd with events := events } := by
  unfold State.closeAgent
  dsimp only
  cases s.agent fd
  all_goals rfl

theorem closeAgent_agent (fd : ℤ) : (s.closeAgent fd).agent fd = none := by
  unfold State.closeAgent
  cases hagent : s.agent fd with
  | none => exact hagent
  | some a => exact update_self ..

theorem closeAgent_launching (fd : ℤ) : (s.closeAgent fd).launching = s.launching := by
  unfold State.closeAgent
  cases s.agent fd
  all_goals rfl

theorem closeAgent_keeps_events (fd : ℤ) : (s.closeAgent fd).events = s.events := by
  unfold State.closeAgent
  cases s.agent fd
  all_goals rfl

/-- The watchdog handles an event. -/
theorem Tracked.handle (h : Tracked s) {e : Event} {events : List Event}
    (hevents : s.events = e :: events) (hok : ∀ fd ∈ s.launching, ¬ e.Ends fd) :
    Tracked ({ s with events := events }.handle e) := by
  -- where an event does nothing, the rest follows
  have hskip : (∀ fd opened, e.next fd opened = some opened) →
      Tracked { s with events := events } := by
    intro hnext
    refine { h with follows := fun fd => ?_ }
    obtain ⟨opened, hopened, hfollows⟩ := h.follows fd
    rw [hevents, List.foldlM_cons, hnext] at hfollows
    exact ⟨opened, hopened, hfollows⟩
  -- an end takes the agent first
  have hclose : ∀ fd, e.Ends fd → Tracked ({ s with events := events }.closeAgent fd) := by
    intro fd hends
    rw [closeAgent_events]
    refine (h.closeAgent fd).ends ((closeAgent_keeps_events fd).trans hevents) hends ?_
      (closeAgent_agent fd)
    rw [closeAgent_launching]
    exact fun hmem => hok fd hmem hends
  cases e with
  | data fd msg => exact hskip fun _ _ => rfl
  | warning fd size => exact hskip fun _ _ => rfl
  | close fd => exact hclose fd (Or.inl rfl)
  | error fd => exact hclose fd (Or.inr rfl)
  | connect fd =>
    have hclosed : fd ∉ s.launching ∧ s.agent fd = none := by
      obtain ⟨opened, hopened, hfollows⟩ := h.follows fd
      cases opened with
      | false => exact hopened rfl
      | true =>
        rw [hevents, List.foldlM_cons, Event.next, if_pos rfl] at hfollows
        cases hfollows
    refine { h with follows := fun fd' => ?_, launching := ?_, fresh := fun fd' hmem => ?_ }
    · obtain ⟨opened, hopened, hfollows⟩ := h.follows fd'
      rw [hevents, List.foldlM_cons, Event.next] at hfollows
      by_cases heq : fd = fd'
      · rw [if_pos heq] at hfollows
        cases opened with
        | true => cases hfollows
        | false => exact ⟨true, nofun, hfollows⟩
      · rw [if_neg heq] at hfollows
        refine ⟨opened, fun hfalse => ⟨fun hmem => ?_, (hopened hfalse).2⟩, hfollows⟩
        rcases List.mem_append.mp hmem with hmem | hmem
        · exact (hopened hfalse).1 hmem
        · exact heq (List.mem_singleton.mp hmem).symm
    · exact List.nodup_append.mpr ⟨h.launching, List.nodup_singleton fd,
        fun fd' hmem fd'' hmem' heq => hclosed.1 (List.mem_singleton.mp hmem' ▸ heq ▸ hmem)⟩
    · rcases List.mem_append.mp hmem with hmem | hmem
      · exact h.fresh fd' hmem
      · rw [List.mem_singleton.mp hmem]
        exact hclosed.2

/-- The new service is not there. -/
theorem Tracked.erase (h : Tracked s) (fd : ℤ) :
    Tracked { s with launching := s.launching.erase fd } := by
  refine { h with follows := fun fd' => ?_, launching := ?_, fresh := fun fd' hmem => ?_ }
  · obtain ⟨opened, hopened, hfollows⟩ := h.follows fd'
    exact ⟨opened, fun hfalse => ⟨fun hmem => (hopened hfalse).1 (List.mem_of_mem_erase hmem),
      (hopened hfalse).2⟩, hfollows⟩
  · exact h.launching.erase fd
  · exact h.fresh fd' (List.mem_of_mem_erase hmem)

/-- The new service is there. -/
theorem Tracked.launched (h : Tracked s) {fd : ℤ} (hfd : fd ∈ s.launching) :
    Tracked ({ s with launching := s.launching.erase fd }.launched fd) := by
  have hnone : s.agent fd = none := h.fresh fd hfd
  -- the agent is new
  have hnew : ∀ fd' a, s.agent fd' = some a ∨ (fd', a) ∈ s.kicks ∨ (fd', a) ∈ s.kicked →
      a < s.agents.length := by
    intro fd' a ha
    obtain ⟨ag, hget, -⟩ := h.known fd' a ha
    exact (List.getElem?_eq_some_iff.mp hget).1
  constructor
  · intro fd'
    obtain ⟨opened, hopened, hfollows⟩ := h.follows fd'
    refine ⟨opened, fun hfalse => ?_, hfollows⟩
    have hne : fd' ≠ fd := by
      rintro rfl
      exact (hopened hfalse).1 hfd
    refine ⟨fun hmem => (hopened hfalse).1 (List.mem_of_mem_erase hmem), ?_⟩
    show update s.agent fd _ fd' = none
    rw [update_of_ne hne]
    exact (hopened hfalse).2
  · exact h.launching.erase fd
  · intro fd' hmem
    have hne : fd' ≠ fd := by
      rintro rfl
      exact h.launching.not_mem_erase hmem
    show update s.agent fd _ fd' = none
    rw [update_of_ne hne]
    exact h.fresh fd' (List.mem_of_mem_erase hmem)
  · intro fd' a ha
    change update s.agent fd _ fd' = some a ∨ _ at ha
    show ∃ ag, (s.agents ++ _)[a]? = some ag ∧ _
    by_cases hnow : fd' = fd ∧ a = s.agents.length
    · obtain ⟨rfl, rfl⟩ := hnow
      exact ⟨_, List.getElem?_concat_length, rfl⟩
    · have hold : s.agent fd' = some a ∨ (fd', a) ∈ s.kicks ∨ (fd', a) ∈ s.kicked := by
        refine ha.imp_left fun hagent => ?_
        by_cases heq : fd' = fd
        · rw [heq, update_self] at hagent
          exact absurd ⟨heq, (Option.some.inj hagent).symm⟩ hnow
        · rwa [update_of_ne heq] at hagent
      obtain ⟨ag, hget, hclient⟩ := h.known fd' a hold
      exact ⟨ag, (List.getElem?_append_left (hnew fd' a hold)).trans hget, hclient⟩
  · intro a ag hget
    change (s.agents ++ _)[a]? = some ag at hget
    unfold State.places
    show (if update s.agent fd (some s.agents.length) ag.clientFd = some a then 1 else 0) +
      s.kicks.count (ag.clientFd, a) + s.kicked.count (ag.clientFd, a) + ag.disconnects = 1
    by_cases hlt : a < s.agents.length
    · rw [List.getElem?_append_left hlt] at hget
      have hplaces := h.once a ag hget
      unfold State.places at hplaces
      by_cases heq : ag.clientFd = fd
      · rw [heq, hnone, if_neg nofun] at hplaces
        rw [heq, update_self, if_neg fun heq' => absurd (Option.some.inj heq') (by omega)]
        exact hplaces
      · rw [update_of_ne heq]
        exact hplaces
    · have hlength := (List.getElem?_eq_some_iff.mp hget).1
      rw [List.length_append, List.length_singleton] at hlength
      obtain rfl : a = s.agents.length := by omega
      cases List.getElem?_concat_length.symm.trans hget
      have hkicks : (fd, s.agents.length) ∉ s.kicks :=
        fun hmem => absurd (hnew _ _ (Or.inr (Or.inl hmem))) (lt_irrefl _)
      have hkicked : (fd, s.agents.length) ∉ s.kicked :=
        fun hmem => absurd (hnew _ _ (Or.inr (Or.inr hmem))) (lt_irrefl _)
      dsimp only
      rw [update_self, if_pos rfl, List.count_eq_zero_of_not_mem hkicks,
        List.count_eq_zero_of_not_mem hkicked]
  · intro a ha
    show a < (s.agents ++ _).length
    rw [List.length_append]
    exact (h.failed a ha).trans_le (Nat.le_add_right _ _)

/-- A call "kick" is answered. -/
theorem Tracked.kick (h : Tracked s) {fd : ℤ} {a : ℕ} (ha : (fd, a) ∈ s.kicks) :
    Tracked { s with
      tcpservice := s.tcpservice.kick fd
      kicks := s.kicks.erase (fd, a)
      kicked := s.kicked ++ [(fd, a)] } := by
  refine { h with follows := fun fd' => ?_, known := fun fd' a' ha' => ?_, once := ?_ }
  · obtain ⟨opened, hopened, hfollows⟩ := h.follows fd'
    refine ⟨opened, hopened, ?_⟩
    rw [hfollows]
    unfold Tcpservice.kick Tcpservice.closeclient
    split_ifs with hclient
    · show some (s.tcpservice.client fd').isSome = some (update s.tcpservice.client fd _ fd').isSome
      by_cases heq : fd' = fd
      · rw [heq, update_self, hclient]
        rfl
      · rw [update_of_ne heq]
    · rfl
  · refine h.known fd' a' (ha'.imp_right fun ha' => ?_)
    rcases ha' with ha' | ha'
    · exact Or.inl (List.mem_of_mem_erase ha')
    · rcases List.mem_append.mp ha' with ha' | ha'
      · exact Or.inr ha'
      · rw [List.mem_singleton.mp ha']
        exact Or.inl ha
  · intro a' ag hget
    have hplaces := h.once a' ag hget
    unfold State.places at *
    dsimp only
    rw [List.count_append, List.count_erase, List.count_singleton]
    by_cases heq : (fd, a) = (ag.clientFd, a')
    · have hpos : 0 < s.kicks.count (fd, a) := List.count_pos_iff.mpr ha
      rw [← heq] at hplaces ⊢
      rw [if_pos (beq_self_eq_true _)]
      omega
    · rw [if_neg fun hbeq => heq (eq_of_beq hbeq)]
      exact hplaces

/-- An agent is told to disconnect. -/
theorem Tracked.kicked (h : Tracked s) {fd : ℤ} {a : ℕ} (ha : (fd, a) ∈ s.kicked) :
    Tracked { s with
      kicked := s.kicked.erase (fd, a)
      agents := s.agents.modify a fun ag => { ag with disconnects := ag.disconnects + 1 } } := by
  refine { h with known := fun fd' a' ha' => ?_, once := ?_, failed := fun a' ha' => ?_ }
  · obtain ⟨ag, hget, hclient⟩ :=
      h.known fd' a' (ha'.imp_right fun ha' => ha'.imp_right List.mem_of_mem_erase)
    show ∃ ag, (s.agents.modify a _)[a']? = some ag ∧ _
    rw [List.getElem?_modify, hget]
    refine ⟨_, rfl, ?_⟩
    split_ifs
    all_goals exact hclient
  · intro a' ag hget
    change (s.agents.modify a _)[a']? = some ag at hget
    rw [List.getElem?_modify] at hget
    unfold State.places
    dsimp only
    rw [List.count_erase]
    obtain ⟨ag', hget', heq⟩ := Option.map_eq_some_iff.mp hget
    have hplaces := h.once a' ag' hget'
    unfold State.places at hplaces
    by_cases ha' : a = a'
    · subst ha'
      rw [if_pos rfl] at heq
      obtain ⟨ag'', hget'', hclient⟩ := h.known fd a (Or.inr (Or.inr ha))
      cases hget'.symm.trans hget''
      have hpos : 0 < s.kicked.count (fd, a) := List.count_pos_iff.mpr ha
      subst heq
      dsimp only
      rw [hclient] at hplaces ⊢
      rw [if_pos (beq_self_eq_true _)]
      omega
    · rw [if_neg ha'] at heq
      subst heq
      rw [if_neg fun hbeq => ha' (congrArg Prod.snd (eq_of_beq hbeq))]
      exact hplaces
  · show a' < (s.agents.modify a _).length
    rw [List.length_modify]
    exact h.failed a' ha'

/-- An end is reported as the socket is closed. -/
theorem foldlM_next_closeFd {fd : ℤ} {e : Event} (hends : e.Ends fd) (t : Tcpservice) (fd' : ℤ) :
    [e].foldlM (Event.next fd') (t.client fd').isSome =
      some ((t.closeFd fd).client fd').isSome := by
  have hnext : ∀ opened, [e].foldlM (Event.next fd') opened =
      some (if fd = fd' then false else opened) := by
    intro opened
    rcases hends with rfl | rfl
    all_goals rfl
  rw [hnext]
  unfold Tcpservice.closeFd
  dsimp only
  cases hclient : t.client fd with
  | none =>
    by_cases heq : fd = fd'
    · rw [if_pos heq, ← heq, hclient]
      rfl
    · rw [if_neg heq]
  | some c =>
    by_cases heq : fd = fd'
    · rw [if_pos heq, ← heq]
      show _ = some (update t.client fd none fd).isSome
      rw [update_self]
      rfl
    · rw [if_neg heq]
      show _ = some (update t.client fd none fd').isSome
      rw [update_of_ne (Ne.symm heq)]

/-- One step. -/
theorem Tracked.step (h : Tracked s) {a : Action} (hok : s.Recorded a)
    (hstep : s.step a = some s') : Tracked s' := by
  have hstart : ∀ {s : State} (a : ℕ) (start : Start), Tracked s → Tracked (s.setStart a start) :=
    fun a _ h => h.modify a fun _ => rfl
  cases a with
  | msgOpen fd =>
    rw [State.step] at hstep
    split_ifs at hstep with hclosed
    cases hstep
    unfold Tcpservice.msgOpen
    split_ifs
    · exact h.report fun fd' => rfl
    · apply h.report
      intro fd'
      show [Event.connect fd].foldlM (Event.next fd') _ =
        some (update s.tcpservice.client fd _ fd').isSome
      by_cases heq : fd = fd'
      · subst heq
        rw [hclosed, update_self]
        show (Event.next fd false (.connect fd)).bind _ = _
        rw [Event.next, if_pos rfl]
        rfl
      · rw [update_of_ne (Ne.symm heq)]
        show (Event.next fd' _ (.connect fd)).bind _ = _
        rw [Event.next, if_neg heq]
        rfl
  | msgData fd msg =>
    cases hstep
    unfold Tcpservice.msgData
    split_ifs
    · split
      · exact h.report fun _ => rfl
      · exact h.report fun _ => rfl
    · exact h.report fun _ => rfl
  | msgClose fd =>
    cases hstep
    exact h.report (foldlM_next_closeFd (Or.inl rfl) _)
  | msgError fd =>
    cases hstep
    exact h.report (foldlM_next_closeFd (Or.inr rfl) _)
  | msgWarning fd size =>
    cases hstep
    exact h.report fun _ => rfl
  | socket =>
    rw [State.step] at hstep
    split at hstep
    · cases hstep
    · rename_i e events hevents
      cases hstep
      refine h.handle hevents (hok e ?_)
      rw [hevents]
      rfl
  | launched fd ok =>
    rw [State.step] at hstep
    by_cases hfd : fd ∈ s.launching
    · rw [if_pos hfd] at hstep
      cases hstep
      cases ok with
      | true => exact h.launched hfd
      | false => exact h.erase fd
    · rw [if_neg hfd] at hstep
      cases hstep
  | start a =>
    obtain ⟨ag, -, hstep⟩ := Option.bind_eq_some_iff.mp hstep
    split_ifs at hstep
    cases hstep
    exact { hstart a .forwarding h with }
  | forward a =>
    obtain ⟨ag, -, hstep⟩ := Option.bind_eq_some_iff.mp hstep
    split_ifs at hstep
    cases hstep
    have herase : Tracked { s with forwards := s.forwards.erase a } := { h with }
    unfold State.forward
    dsimp only
    split
    · rename_i tcpservice hforward
      obtain ⟨c, -, rfl⟩ := Option.map_eq_some_iff.mp hforward
      have hforwarded : Tracked { s with
        forwards := s.forwards.erase a
        tcpservice := { s.tcpservice with
          connection := update s.tcpservice.connection ag.clientFd (some (some a)) } } := { h with }
      split_ifs
      · exact hstart a _ hforwarded
      · exact hforwarded
    · split_ifs
      · exact hstart a _ herase
      · exact herase
  | reply a =>
    obtain ⟨ag, -, hstep⟩ := Option.bind_eq_some_iff.mp hstep
    split at hstep
    · cases hstep
      exact hstart a _ h
    · cases hstep
  | started a =>
    obtain ⟨ag, hget, hstep⟩ := Option.bind_eq_some_iff.mp hstep
    split at hstep
    · rename_i ok hreplied
      split_ifs at hstep
      cases hstep
      refine { h with failed := fun a' ha' => ?_ }
      cases ok with
      | true => exact h.failed a' ha'
      | false =>
        rcases List.mem_append.mp ha' with ha' | ha'
        · exact h.failed a' ha'
        · rw [List.mem_singleton.mp ha']
          exact (List.getElem?_eq_some_iff.mp hget).1
    · cases hstep
  | quit a =>
    obtain ⟨ag, -, hstep⟩ := Option.bind_eq_some_iff.mp hstep
    split_ifs at hstep
    cases hstep
    exact { h with }
  | close fd =>
    rw [State.step] at hstep
    split_ifs at hstep
    cases hstep
    have herase : Tracked { s with closes := s.closes.erase fd } := { h with }
    exact herase.closeAgent fd
  | kick fd a =>
    rw [State.step] at hstep
    split_ifs at hstep with ha
    cases hstep
    exact h.kick ha
  | kicked fd a =>
    rw [State.step] at hstep
    split_ifs at hstep with ha
    cases hstep
    exact h.kicked ha
  | disconnect a =>
    obtain ⟨ag, -, hstep⟩ := Option.bind_eq_some_iff.mp hstep
    split_ifs at hstep
    cases hstep
    refine h.modify a fun ag => ?_
    split
    · rfl
    · rfl

theorem Tracked.init (maxclient : ℕ) : Tracked (.init maxclient) where
  follows _ := ⟨false, fun _ => ⟨nofun, rfl⟩, rfl⟩
  launching := List.nodup_nil
  fresh := nofun
  known := by
    rintro fd a (h | h | h)
    all_goals cases h
  once := nofun
  failed := nofun

end

/-- **No agent outlives its connection.** When no end of a socket is handled before its agent is
there, a socket whose events have all been handled has no agent, each agent that it has had has been
told to disconnect once, and so has the agent of each handler that has failed. -/
theorem agents_released {maxclient : ℕ} {as : List Action} {s : State} {fd : ℤ}
    (h : run State.step (.init maxclient) as = some s)
    (hok : Guarded State.step State.Recorded (.init maxclient) as) (hfd : s.Handled fd) :
    s.agent fd = none ∧
      (∀ (a : ℕ) ag, s.agents[a]? = some ag → ag.clientFd = fd → ag.disconnects = 1) ∧
      ∀ a ∈ s.failed, ∃ ag : Agent,
        s.agents[a]? = some ag ∧ (ag.clientFd = fd → ag.disconnects = 1) := by
  have htracked : Tracked s :=
    run_invariant (fun s a s' h hok hstep => h.step hok hstep) (Tracked.init maxclient) hok h
  have hagent : s.agent fd = none := by
    obtain ⟨opened, hopened, hfollows⟩ := htracked.follows fd
    -- no event that is left says anything of the socket
    have hsame : ∀ events : List Event, (∀ e ∈ events, e.fd ≠ fd) →
        events.foldlM (Event.next fd) opened = some opened := by
      intro events hevents
      induction events with
      | nil => rfl
      | cons e events ih =>
        have hne := hevents e List.mem_cons_self
        have hnext : e.next fd opened = some opened := by
          cases e with
          | connect fd' => exact if_neg hne
          | data fd' msg => rfl
          | close fd' => exact congrArg some (if_neg hne)
          | error fd' => exact congrArg some (if_neg hne)
          | warning fd' size => rfl
        rw [List.foldlM_cons, hnext]
        exact ih fun e' he' => hevents e' (List.mem_cons_of_mem e he')
    rw [hsame s.events hfd.events, hfd.client] at hfollows
    exact (hopened (Option.some.inj hfollows)).2
  have hdisconnects : ∀ (a : ℕ) ag, s.agents[a]? = some ag → ag.clientFd = fd →
      ag.disconnects = 1 := by
    intro a ag hget hclient
    have hplaces := htracked.once a ag hget
    unfold State.places at hplaces
    rw [hclient, hagent, if_neg nofun, List.count_eq_zero_of_not_mem (hfd.kicks a),
      List.count_eq_zero_of_not_mem (hfd.kicked a)] at hplaces
    omega
  refine ⟨hagent, hdisconnects, fun a ha => ?_⟩
  exact ⟨_, List.getElem?_eq_getElem (htracked.failed a ha),
    hdisconnects a _ (List.getElem?_eq_getElem (htracked.failed a ha))⟩

/-- The socket is closed when its agent is there. -/
theorem agents_released_closed :
    ∃ s : State, run State.step (.init 1024) [.msgOpen 1, .socket, .launched 1 true, .start 0,
      .forward 0, .reply 0, .started 0, .msgClose 1, .socket, .kick 1 0, .kicked 1 0] = some s ∧
      s.agent 1 = none := by
  have hok : Guarded State.step State.Recorded (.init 1024) [.msgOpen 1, .socket, .launched 1 true,
    .start 0, .forward 0, .reply 0, .started 0, .msgClose 1, .socket, .kick 1 0, .kicked 1 0] := by
    decide
  refine ⟨_, rfl, (agents_released rfl hok ?_).1⟩
  exact ⟨rfl, nofun, nofun, nofun, nofun, nofun⟩

/-- It is closed before, and the agent stays. -/
theorem agent_left_behind :
    ∃ s : State, run State.step (.init 1024) [.msgOpen 1, .socket, .msgClose 1, .socket,
      .launched 1 true, .start 0, .forward 0, .reply 0, .started 0] = some s ∧
      s.Handled 1 ∧ s.agent 1 = some 0 ∧ s.failed = [0] ∧
      s.agents[0]?.map Agent.disconnects = some 0 := by
  refine ⟨_, rfl, ?_, rfl, rfl, rfl⟩
  exact ⟨rfl, nofun, nofun, nofun, nofun, nofun⟩

end SkynetEureka.Gateway
