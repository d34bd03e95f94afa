import SkynetEureka.HarborService.Moves

/-!
# The invariant of the harbor service

Every message that waits for a name came in for this name. Every other message, passed on or in
the queue of a slave, came in for a handle or for a name that has one.
-/

namespace SkynetEureka.HarborService

open Lib Function

/-- The handle of the message, once it is known. -/
def Arrival.target (resolved : Name → Option ℕ) (a : Arrival) : Option ℕ :=
  match a.destination with
  | .handle destination => some destination
  | .name name => resolved name

/-- The message `stamp` goes to a handle of the harbor `id`. -/
def System.Settled (sys : System) (id stamp : ℕ) : Prop :=
  ∃ a handle, sys.arrivals stamp = some a ∧ a.target sys.resolved = some handle ∧
    harborOf handle = id

/-- The message has come in for the name. -/
def System.WaitsFor (sys : System) (name : Name) (m : HarborMsg) : Prop :=
  ∃ a, sys.arrivals m.stamp = some a ∧ a.destination = .name name ∧ m = a.msg 0 m.stamp

/-- A slave without a socket waits for one; a slave with a queue waits for its handshake. -/
structure Slave.Ok (s : Slave) : Prop where
  wait : s.fd = 0 ↔ s.status = .wait
  queue : s.fd ≠ 0 → s.status ≠ .handshake → s.queue = none

/-- A name without a handle has none in its node; a name with a handle has no queue. -/
structure KeyValue.Ok (resolved : Option ℕ) (node : KeyValue) : Prop where
  unresolved : resolved = none → node.value = 0
  resolved : resolved ≠ none → node.value ≠ 0 ∧ node.queue = none

structure Sound (sys : System) : Prop where
  slave : ∀ id, (sys.h.s id).Ok
  node : ∀ name, (sys.h.map name).Ok (sys.resolved name)
  arrived : ∀ stamp a, sys.arrivals stamp = some a → stamp < sys.clock
  unnamed : ∀ name, ∀ m ∈ sys.h.unnamed name, sys.WaitsFor name m
  waiting : ∀ id, ∀ m ∈ (sys.h.s id).waiting, sys.Settled id m.stamp
  passed : ∀ e ∈ sys.log, ∀ stamp ∈ e.stamp, ∃ id, sys.Settled id stamp

variable {h h' : Harbor} {stamp : ℕ} {m : Message} {es : List Effect}

/-! ## Slaves and nodes -/

theorem setSlave_s (h : Harbor) (id : ℕ) (s : Slave) (id' : ℕ) :
    (h.setSlave id s).s id' = if id' = id then s else h.s id' := update_apply ..

theorem setNode_map_apply (h : Harbor) (name : Name) (node : KeyValue) (name' : Name) :
    (h.setNode name node).map name' = if name' = name then node else h.map name' :=
  update_apply ..

theorem forall_setSlave {P : Slave → Prop} {id : ℕ} {s : Slave} (hP : ∀ id, P (h.s id)) (hs : P s)
    (id' : ℕ) : P ((h.setSlave id s).s id') := by
  rw [setSlave_s]
  split
  · exact hs
  · exact hP id'

theorem Move.slave_ok (hmove : Move h stamp m h' es) (hok : ∀ id, (h.s id).Ok) :
    ∀ id, (h'.s id).Ok := by
  cases hmove with
  | idle => exact hok
  | @read _ id s _ _ _ hfd hstatus hs _ =>
    apply forall_setSlave hok
    have hqueue : (h.s id).queue = none := by
      apply (hok id).queue hfd
      intro hhandshake
      simp [hhandshake] at hstatus
    refine ⟨⟨fun hzero => absurd (hs.fd ▸ hzero) hfd, fun hwait => ?_⟩, fun _ _ => ?_⟩
    · simpa [hwait] using hs.status
    · obtain hsame | hclosed := hs.queue
      · rw [hsame, hqueue]
      · exact hclosed.2
  | @refuse _ id _ _ _ hfd _ _ =>
    apply forall_setSlave hok
    exact ⟨⟨fun hzero => absurd hzero hfd, fun hwait => by simp at hwait⟩, fun _ _ => rfl⟩
  | @shake _ id s _ _ _ hfd _ hs _ =>
    apply forall_setSlave hok
    refine ⟨⟨fun hzero => absurd (hs.fd ▸ hzero) hfd, fun hwait => ?_⟩, fun _ _ => ?_⟩
    · simpa [hwait] using hs.status
    · obtain hsame | hclosed := hs.queue
      · exact hsame
      · exact hclosed.2
  | connect _ _ _ hfd =>
    apply forall_setSlave hok
    exact ⟨⟨fun hzero => absurd hzero hfd, fun hwait => by simp at hwait⟩,
      fun _ hstatus => absurd rfl hstatus⟩
  | accept _ _ _ hfd =>
    apply forall_setSlave hok
    exact ⟨⟨fun hzero => absurd hzero hfd, fun hwait => by simp at hwait⟩, fun _ _ => rfl⟩
  | resolve => exact hok
  | @resolveLocal _ handle _ _ hfd _ =>
    apply forall_setSlave (h := h.setNode _ _) hok
    exact ⟨(hok (harborOf handle)).wait, fun _ _ => rfl⟩
  | @resolveWait _ handle _ _ hfd _ =>
    apply forall_setSlave (h := h.setNode _ _) hok
    exact ⟨(hok (harborOf handle)).wait, fun hne => absurd hfd hne⟩
  | resolveSend => exact hok
  | resolveDrop => exact hok
  | «local» => exact hok
  | @wait _ _ handle _ _ _ _ hfd =>
    apply forall_setSlave hok
    exact ⟨(hok (harborOf handle)).wait, fun hne hstatus => absurd hfd (by simp [hne, hstatus])⟩
  | send => exact hok
  | drop => exact hok
  | unresolved => exact hok

/-- A slave keeps its socket. -/
theorem Move.fd_eq (hmove : Move h stamp m h' es) {id : ℕ} (hfd : (h.s id).fd ≠ 0) :
    (h'.s id).fd = (h.s id).fd := by
  have hset : ∀ {h : Harbor} {id' s}, (h.s id).fd ≠ 0 →
      ((h.s id').fd ≠ 0 → s.fd = (h.s id').fd) → ((h.setSlave id' s).s id).fd = (h.s id).fd := by
    intro h id' s hfd hs
    rw [setSlave_s]
    split
    · next heq =>
      subst heq
      exact hs hfd
    · rfl
  cases hmove with
  | read _ _ _ _ hs => exact hset hfd fun _ => hs.fd
  | refuse => exact hset hfd fun _ => rfl
  | shake _ _ _ _ hs => exact hset hfd fun _ => hs.fd
  | connect _ _ hfree => exact hset hfd fun hne => absurd hfree hne
  | accept _ _ hfree => exact hset hfd fun hne => absurd hfree hne
  | @resolveLocal name handle => exact hset (h := h.setNode name ⟨handle, none⟩) hfd fun _ => rfl
  | @resolveWait name handle => exact hset (h := h.setNode name ⟨handle, none⟩) hfd fun _ => rfl
  | wait => exact hset hfd fun _ => rfl
  | _ => rfl

/-- A name with a handle keeps its first one. -/
theorem resolve_of_some {resolved : Name → Option ℕ} {name : Name} {handle : ℕ}
    (hresolved : resolved name = some handle) : resolve resolved m name = some handle := by
  unfold resolve
  split
  · next name' _ =>
    split
    · next hok =>
      rw [update_apply]
      split
      · next heq =>
        subst heq
        simp [hresolved] at hok
      · exact hresolved
    · exact hresolved
  · exact hresolved

theorem target_resolve {resolved : Name → Option ℕ} {a : Arrival} {handle : ℕ}
    (htarget : a.target resolved = some handle) :
    a.target (resolve resolved m) = some handle := by
  unfold Arrival.target at *
  split
  · next destination hdest =>
    rw [hdest] at htarget
    exact htarget
  · next name hdest =>
    rw [hdest] at htarget
    exact resolve_of_some htarget

theorem resolve_name (resolved : Name → Option ℕ) {name : Name} (hname : ValidName name)
    (handle : ℕ) (name' : Name) : resolve resolved (.command (.name name) handle) name' =
      if name' = name ∧ resolved name = none then some handle else resolved name' := by
  show (if ValidName name ∧ resolved name = none then update resolved name (some handle)
    else resolved) name' = _
  by_cases hnone : resolved name = none
  · rw [if_pos ⟨hname, hnone⟩, update_apply]
    simp [hnone]
  · rw [if_neg fun h => hnone h.2, if_neg fun h => hnone h.2]

theorem not_noName {name : Name} {handle : ℕ} (hname : ValidName name) :
    ¬ NoName (.command (.name name) handle) := by
  intro hnoname
  have hresolve := congrFun (hnoname fun _ => none) name
  rw [resolve_name _ hname, if_pos ⟨rfl, rfl⟩] at hresolve
  exact absurd hresolve (by simp)

/-- What becomes of the messages that wait for a name when it gets its handle. -/
theorem Move.named {name : Name} {handle : ℕ}
    (hmove : Move h stamp (.command (.name name) handle) h' es) (hname : ValidName name)
    (hok : (h.s (harborOf handle)).Ok) :
    ((h.map name).queue = none ∧ es = [] ∧ h'.s = h.s) ∨
    ((h.s (harborOf handle)).fd = 0 ∧ harborOf handle = harborOf h.slave ∧
      es = ((h.s (harborOf handle)).waiting ++ h.unnamed name).map (fun q => q.deliver handle) ∧
      h'.s = (h.setSlave (harborOf handle) { h.s (harborOf handle) with queue := none }).s) ∨
    ((h.s (harborOf handle)).fd = 0 ∧ harborOf handle ≠ harborOf h.slave) ∨
    ((h.s (harborOf handle)).fd ≠ 0 ∧
      es = (h.unnamed name).map (fun q => .sendRemote (h.s (harborOf handle)).fd
        (h.s (harborOf handle)).status (q.fill handle)) ∧ h'.s = h.s) := by
  cases hmove with
  | resolve _ hqueue => exact .inl ⟨hqueue, rfl, rfl⟩
  | resolveLocal _ _ hfd hlocal => exact .inr (.inl ⟨hfd, hlocal, rfl, rfl⟩)
  | resolveWait _ _ hfd hremote => exact .inr (.inr (.inl ⟨hfd, hremote⟩))
  | resolveSend _ _ hfd => exact .inr (.inr (.inr ⟨hfd, rfl, rfl⟩))
  | resolveDrop _ hfd hdown =>
    have hwait := hok.wait.mp hfd
    rw [hdown] at hwait
    exact absurd hwait (by simp)
  | idle _ hnoname => exact absurd hnoname (not_noName hname)
  | read _ hnoname => exact absurd hnoname (not_noName hname)
  | refuse _ hnoname => exact absurd hnoname (not_noName hname)
  | shake _ hnoname => exact absurd hnoname (not_noName hname)
  | connect _ hnoname => exact absurd hnoname (not_noName hname)
  | accept _ hnoname => exact absurd hnoname (not_noName hname)
  | «local» _ _ hnoname => exact absurd hnoname (not_noName hname)
  | wait _ _ hnoname => exact absurd hnoname (not_noName hname)
  | send _ _ hnoname => exact absurd hnoname (not_noName hname)
  | drop _ _ hnoname => exact absurd hnoname (not_noName hname)
  | unresolved _ _ hnoname => exact absurd hnoname (not_noName hname)

/-- The node of a name that gets a handle. -/
theorem resolve_node_ok {resolved : Name → Option ℕ} {name : Name} {handle : ℕ}
    (hname : ValidName name) (hhandle : handle ≠ 0)
    (hok : ∀ name, (h.map name).Ok (resolved name)) (name' : Name) :
    ((h.setNode name ⟨handle, none⟩).map name').Ok
      (resolve resolved (.command (.name name) handle) name') := by
  rw [setNode_map_apply, resolve_name resolved hname]
  by_cases heq : name' = name
  · rw [if_pos heq]
    refine ⟨fun hnone => ?_, fun _ => ⟨hhandle, rfl⟩⟩
    by_cases hresolved : resolved name = none
    · simp [heq, hresolved] at hnone
    · simp [heq, hresolved] at hnone
  · rw [if_neg heq, if_neg fun h => heq h.1]
    exact hok name'

theorem handle_ne_zero {name : Name} {handle : ℕ}
    (hvalid : (Message.command (.name name) handle).Valid) : handle ≠ 0 := by
  intro hzero
  subst hzero
  exact hvalid.1 rfl

/-- What a move does to the nodes: a name gets a handle, a message waits for its name, or they stay
the same. -/
theorem Move.nodes (hmove : Move h stamp m h' es) :
    (∃ name handle, m = .command (.name name) handle ∧ ValidName name ∧
      h'.map = (h.setNode name ⟨handle, none⟩).map) ∨
    (∃ a name, arrival h m = some a ∧ a.destination = .name name ∧ NoName m ∧
      (h.map name).value = 0 ∧
      h'.map = (h.setNode name { h.map name with
        queue := some (h.unnamed name ++ [a.msg 0 stamp]) }).map) ∨
    NoName m ∧ h'.map = h.map ∧ ∀ a name, arrival h m = some a → a.destination ≠ .name name := by
  have hnone : arrival h m = none →
      ∀ a name, arrival h m = some a → a.destination ≠ .name name := by
    intro hnone a name ha
    exact absurd ha (by simp [hnone])
  have hhandle : ∀ {a handle}, arrival h m = some a → a.destination = .handle handle →
      ∀ a name, arrival h m = some a → a.destination ≠ .name name := by
    intro a handle ha hdest b name hb
    rw [ha] at hb
    cases hb
    rw [hdest]
    simp
  cases hmove with
  | resolve hname => exact .inl ⟨_, _, rfl, hname, rfl⟩
  | resolveLocal hname => exact .inl ⟨_, _, rfl, hname, rfl⟩
  | resolveWait hname => exact .inl ⟨_, _, rfl, hname, rfl⟩
  | resolveSend hname => exact .inl ⟨_, _, rfl, hname, rfl⟩
  | resolveDrop hname => exact .inl ⟨_, _, rfl, hname, rfl⟩
  | unresolved ha hdest hnoname hvalue =>
    exact .inr (.inl ⟨_, _, ha, hdest, hnoname, hvalue, rfl⟩)
  | idle ha hnoname => exact .inr (.inr ⟨hnoname, rfl, hnone ha⟩)
  | read ha hnoname => exact .inr (.inr ⟨hnoname, rfl, hnone ha⟩)
  | refuse ha hnoname => exact .inr (.inr ⟨hnoname, rfl, hnone ha⟩)
  | shake ha hnoname => exact .inr (.inr ⟨hnoname, rfl, hnone ha⟩)
  | connect ha hnoname => exact .inr (.inr ⟨hnoname, rfl, hnone ha⟩)
  | accept ha hnoname => exact .inr (.inr ⟨hnoname, rfl, hnone ha⟩)
  | «local» ha hdest hnoname => exact .inr (.inr ⟨hnoname, rfl, hhandle ha hdest⟩)
  | wait ha hdest hnoname => exact .inr (.inr ⟨hnoname, rfl, hhandle ha hdest⟩)
  | send ha hdest hnoname => exact .inr (.inr ⟨hnoname, rfl, hhandle ha hdest⟩)
  | drop ha hdest hnoname => exact .inr (.inr ⟨hnoname, rfl, hhandle ha hdest⟩)

theorem Move.node_ok {resolved : Name → Option ℕ} (hmove : Move h stamp m h' es) (hvalid : m.Valid)
    (hok : ∀ name, (h.map name).Ok (resolved name)) :
    ∀ name, (h'.map name).Ok (HarborService.resolve resolved m name) := by
  obtain ⟨name, handle, rfl, hname, hmap⟩ | ⟨a, name, _, _, hnoname, hvalue, hmap⟩ |
    ⟨hnoname, hmap, _⟩ := hmove.nodes
  · rw [hmap]
    exact resolve_node_ok hname (handle_ne_zero hvalid) hok
  · rw [hnoname resolved, hmap]
    intro name'
    rw [setNode_map_apply]
    split
    · next heq =>
      subst heq
      refine ⟨fun _ => hvalue, fun hresolved => ?_⟩
      exact absurd hvalue ((hok name').resolved hresolved).1
    · exact hok name'
  · rw [hnoname resolved, hmap]
    exact hok

/-! ## Where the messages of a queue come from -/

/-- The message has come in just now, for a handle of the harbor `id`. -/
def Comes (h : Harbor) (m : Message) (id : ℕ) : Prop :=
  ∃ a handle, arrival h m = some a ∧ a.destination = .handle handle ∧ harborOf handle = id

/-- The name gets a handle of the harbor `id`. -/
def Named (m : Message) (id : ℕ) (name : Name) : Prop :=
  ∃ handle, m = .command (.name name) handle ∧ ValidName name ∧ harborOf handle = id

/-- How a message can be passed on or get into the queue of the slave `id`. -/
def Flows (h : Harbor) (stamp : ℕ) (m : Message) (id stamp' : ℕ) : Prop :=
  (∃ q ∈ (h.s id).waiting, q.stamp = stamp') ∨ (Comes h m id ∧ stamp' = stamp) ∨
    ∃ name, Named m id name ∧ ∃ q ∈ h.unnamed name, q.stamp = stamp'

theorem flows_of_waiting {id : ℕ} {q : HarborMsg} (hq : q ∈ (h.s id).waiting) :
    Flows h stamp m id q.stamp := .inl ⟨q, hq, rfl⟩

/-- A slave of which only the queue of `id` has changed. -/
theorem flows_setSlave {id id' : ℕ} {s : Slave} {q : HarborMsg}
    (hs : ∀ q ∈ s.waiting, Flows h stamp m id q.stamp)
    (hq : q ∈ ((h.setSlave id s).s id').waiting) : Flows h stamp m id' q.stamp := by
  rw [setSlave_s] at hq
  by_cases heq : id' = id
  · rw [if_pos heq] at hq
    rw [heq]
    exact hs q hq
  · rw [if_neg heq] at hq
    exact flows_of_waiting hq

theorem HasRead.waiting_subset {s s' : Slave} (hs : HasRead s s') {q : HarborMsg}
    (hq : q ∈ s'.waiting) : q ∈ s.waiting := by
  unfold Slave.waiting at *
  obtain hsame | hclosed := hs.queue
  · rw [← hsame]
    exact hq
  · rw [hclosed.2] at hq
    exact absurd hq List.not_mem_nil

theorem Move.waiting (hmove : Move h stamp m h' es) {id : ℕ} {q : HarborMsg}
    (hq : q ∈ (h'.s id).waiting) : Flows h stamp m id q.stamp := by
  cases hmove with
  | idle => exact flows_of_waiting hq
  | read _ _ _ _ hs =>
    exact flows_setSlave (fun q hq => flows_of_waiting (hs.waiting_subset hq)) hq
  | refuse => exact flows_setSlave (fun q hq => absurd hq List.not_mem_nil) hq
  | shake _ _ _ _ hs =>
    exact flows_setSlave (fun q hq => absurd (hs.waiting_subset hq) List.not_mem_nil) hq
  | @connect _ id _ _ _ _ _ _ =>
    apply flows_setSlave (fun q hq => ?_) hq
    exact .inl ⟨q, hq, rfl⟩
  | accept => exact flows_setSlave (fun q hq => absurd hq List.not_mem_nil) hq
  | resolve => exact flows_of_waiting hq
  | @resolveLocal name handle _ _ _ _ =>
    exact @flows_setSlave h stamp _ (harborOf handle) id _ q
      (fun q hq => absurd hq List.not_mem_nil) hq
  | @resolveWait name handle hname _ _ _ =>
    apply @flows_setSlave h stamp _ (harborOf handle) id _ q (fun q hq => ?_) hq
    obtain hq | hq := List.mem_append.mp hq
    · exact flows_of_waiting hq
    · exact .inr (.inr ⟨name, ⟨handle, rfl, hname, rfl⟩, q, hq, rfl⟩)
  | resolveSend => exact flows_of_waiting hq
  | resolveDrop => exact flows_of_waiting hq
  | «local» => exact flows_of_waiting hq
  | @wait _ a handle harrival hdest _ _ _ =>
    apply flows_setSlave (fun q hq => ?_) hq
    obtain hq | hq := List.mem_append.mp hq
    · exact flows_of_waiting hq
    · rw [List.mem_singleton] at hq
      subst hq
      exact .inr (.inl ⟨⟨a, handle, harrival, hdest, rfl⟩, rfl⟩)
  | send => exact flows_of_waiting hq
  | drop => exact flows_of_waiting hq
  | unresolved => exact flows_of_waiting hq

theorem Quiet.not_passed {P : Prop} (hes : Quiet es) {e : Effect} (he : e ∈ es) {stamp : ℕ}
    (hstamp : stamp ∈ e.stamp) : P := by
  rw [hes e he] at hstamp
  exact absurd hstamp (Option.not_mem_none _)

theorem Move.passed (hmove : Move h stamp m h' es) {e : Effect} (he : e ∈ es) {stamp' : ℕ}
    (hstamp : stamp' ∈ e.stamp) : ∃ id, Flows h stamp m id stamp' := by
  cases hmove with
  | idle _ _ hes => exact hes.not_passed he hstamp
  | read _ _ _ _ _ hes => exact hes.not_passed he hstamp
  | refuse _ _ _ _ hes => exact hes.not_passed he hstamp
  | @shake _ id _ _ _ _ _ _ _ hes =>
    obtain he | he := List.mem_append.mp he
    · obtain ⟨q, hq, rfl⟩ := List.mem_map.mp he
      exact ⟨id, .inl ⟨q, hq, Option.some.inj hstamp⟩⟩
    · exact hes.not_passed he hstamp
  | connect _ _ _ _ hes => exact hes.not_passed he hstamp
  | @accept _ id _ _ _ _ _ _ hes =>
    obtain he | he := List.mem_append.mp he
    · exact hes.not_passed he hstamp
    · obtain ⟨q, hq, rfl⟩ := List.mem_map.mp he
      exact ⟨id, .inl ⟨q, hq, Option.some.inj hstamp⟩⟩
  | resolve => exact absurd he List.not_mem_nil
  | @resolveLocal name handle hname _ _ _ =>
    obtain ⟨q, hq, rfl⟩ := List.mem_map.mp he
    obtain hq | hq := List.mem_append.mp hq
    · exact ⟨harborOf handle, .inl ⟨q, hq, Option.some.inj hstamp⟩⟩
    · exact ⟨harborOf handle,
        .inr (.inr ⟨name, ⟨handle, rfl, hname, rfl⟩, q, hq, Option.some.inj hstamp⟩)⟩
  | resolveWait => exact absurd he List.not_mem_nil
  | @resolveSend name handle hname _ _ =>
    obtain ⟨q, hq, rfl⟩ := List.mem_map.mp he
    exact ⟨harborOf handle,
      .inr (.inr ⟨name, ⟨handle, rfl, hname, rfl⟩, q, hq, Option.some.inj hstamp⟩)⟩
  | resolveDrop _ _ _ hes => exact hes.not_passed he hstamp
  | @«local» _ a handle harrival hdest _ _ =>
    rw [List.mem_singleton] at he
    subst he
    exact ⟨_, .inr (.inl ⟨⟨a, handle, harrival, hdest, rfl⟩, (Option.some.inj hstamp).symm⟩)⟩
  | wait => exact absurd he List.not_mem_nil
  | @send _ a handle harrival hdest _ _ _ _ =>
    rw [List.mem_singleton] at he
    subst he
    exact ⟨_, .inr (.inl ⟨⟨a, handle, harrival, hdest, rfl⟩, (Option.some.inj hstamp).symm⟩)⟩
  | drop _ _ _ _ _ hes => exact hes.not_passed he hstamp
  | unresolved =>
    rw [List.mem_singleton] at he
    subst he
    exact absurd hstamp (Option.not_mem_none _)

theorem unnamed_setNode {name name' : Name} {node : KeyValue} :
    (h.setNode name node).unnamed name' =
      if name' = name then node.queue.getD [] else h.unnamed name' := by
  unfold Harbor.unnamed
  rw [setNode_map_apply]
  split
  · rfl
  · rfl

/-- What a move does to the queue of one name. -/
theorem Move.unnamed_cases (hmove : Move h stamp m h' es) (name : Name) :
    ((∃ id, Named m id name) ∧ h'.unnamed name = []) ∨
    (∃ a, arrival h m = some a ∧ a.destination = .name name ∧ (h.map name).value = 0 ∧
      h'.unnamed name = h.unnamed name ++ [a.msg 0 stamp]) ∨
    h'.unnamed name = h.unnamed name ∧
      ∀ a, arrival h m = some a → a.destination ≠ .name name := by
  have hunnamed : ∀ {node : KeyValue} {name' : Name}, h'.map = (h.setNode name' node).map →
      h'.unnamed name = if name = name' then node.queue.getD [] else h.unnamed name := by
    intro node name' hmap
    rw [← unnamed_setNode, Harbor.unnamed, hmap]
    rfl
  obtain ⟨name', handle, rfl, hname, hmap⟩ | ⟨a, name', ha, hdest, _, hvalue, hmap⟩ |
    ⟨_, hmap, hdest⟩ := hmove.nodes
  · have harrival : ∀ a, arrival h (.command (.name name') handle) = some a →
        a.destination ≠ .name name := fun a ha => absurd ha (by simp [arrival])
    rw [hunnamed hmap]
    by_cases heq : name = name'
    · subst heq
      rw [if_pos rfl]
      exact .inl ⟨⟨harborOf handle, handle, rfl, hname, rfl⟩, rfl⟩
    · rw [if_neg heq]
      exact .inr (.inr ⟨rfl, harrival⟩)
  · rw [hunnamed hmap]
    by_cases heq : name = name'
    · subst heq
      rw [if_pos rfl]
      exact .inr (.inl ⟨a, ha, hdest, hvalue, rfl⟩)
    · rw [if_neg heq]
      refine .inr (.inr ⟨rfl, fun b hb hbdest => heq ?_⟩)
      rw [ha] at hb
      cases hb
      rw [hdest] at hbdest
      exact (Destination.name.inj hbdest).symm
  · refine .inr (.inr ⟨?_, fun a ha => hdest a name ha⟩)
    rw [Harbor.unnamed, hmap]
    rfl

/-- A message that waits for a name has waited for it before, or has just come in. -/
theorem Move.unnamed (hmove : Move h stamp m h' es) {name : Name} {q : HarborMsg}
    (hq : q ∈ h'.unnamed name) : q ∈ h.unnamed name ∨
      ∃ a, arrival h m = some a ∧ a.destination = .name name ∧ q = a.msg 0 stamp := by
  obtain ⟨_, heq⟩ | ⟨a, ha, hdest, _, heq⟩ | ⟨heq, _⟩ := hmove.unnamed_cases name
  · rw [heq] at hq
    exact absurd hq List.not_mem_nil
  · rw [heq] at hq
    obtain hq | hq := List.mem_append.mp hq
    · exact .inl hq
    · exact .inr ⟨a, ha, hdest, List.mem_singleton.mp hq⟩
  · rw [heq] at hq
    exact .inl hq

/-! ## Every run is sound -/

theorem step_eq {sys sys' : System} (hstep : sys.step m = some sys') :
    ∃ h es, Move sys.h sys.clock m h es ∧ m.Valid ∧ sys'.h = h ∧ sys'.log = sys.log ++ es ∧
      sys'.clock = sys.clock + 1 ∧
      sys'.arrivals = update sys.arrivals sys.clock (arrival sys.h m) ∧
      sys'.resolved = resolve sys.resolved m := by
  unfold System.step at hstep
  split at hstep
  · next hvalid =>
    cases hstep
    exact ⟨_, _, mainloop_move sys.h sys.clock m hvalid, hvalid, rfl, rfl, rfl, rfl, rfl⟩
  · exact absurd hstep (by simp)

section Step

variable {sys sys' : System}

/-- What has come in stays. -/
theorem arrivals_step (hs : Sound sys) (hstep : sys.step m = some sys') {a : Arrival}
    (ha : sys.arrivals stamp = some a) : sys'.arrivals stamp = some a := by
  obtain ⟨_, _, _, _, _, _, _, harrivals, _⟩ := step_eq hstep
  rw [harrivals, update_of_ne (hs.arrived stamp a ha).ne]
  exact ha

/-- The message that has come in now. -/
theorem arrivals_clock (hstep : sys.step m = some sys') :
    sys'.arrivals sys.clock = arrival sys.h m := by
  obtain ⟨_, _, _, _, _, _, _, harrivals, _⟩ := step_eq hstep
  rw [harrivals, update_self]

theorem settled_step (hs : Sound sys) (hstep : sys.step m = some sys') {id : ℕ}
    (hsettled : sys.Settled id stamp) : sys'.Settled id stamp := by
  obtain ⟨a, handle, ha, htarget, hid⟩ := hsettled
  refine ⟨a, handle, arrivals_step hs hstep ha, ?_, hid⟩
  obtain ⟨_, _, _, _, _, _, _, _, hresolved⟩ := step_eq hstep
  rw [hresolved]
  exact target_resolve htarget

/-- A name for which messages wait has no handle. -/
theorem resolved_none (hs : Sound sys) {name : Name} {q : HarborMsg}
    (hq : q ∈ sys.h.unnamed name) : sys.resolved name = none := by
  by_contra hresolved
  have hqueue := ((hs.node name).resolved hresolved).2
  rw [Harbor.unnamed, hqueue] at hq
  exact absurd hq List.not_mem_nil

theorem flows_settled (hs : Sound sys) (hstep : sys.step m = some sys') {id : ℕ}
    (hflows : Flows sys.h sys.clock m id stamp) : sys'.Settled id stamp := by
  obtain ⟨q, hq, rfl⟩ | ⟨⟨a, handle, harrival, hdest, hid⟩, rfl⟩ |
    ⟨name, ⟨handle, rfl, hname, hid⟩, q, hq, rfl⟩ := hflows
  · exact settled_step hs hstep (hs.waiting id q hq)
  · refine ⟨a, handle, ?_, ?_, hid⟩
    · rw [arrivals_clock hstep, harrival]
    · rw [Arrival.target, hdest]
  · obtain ⟨a, ha, hdest, _⟩ := hs.unnamed name q hq
    refine ⟨a, handle, arrivals_step hs hstep ha, ?_, hid⟩
    obtain ⟨_, _, _, _, _, _, _, _, hresolved⟩ := step_eq hstep
    rw [Arrival.target, hdest, hresolved]
    show resolve sys.resolved _ name = some handle
    rw [resolve_name sys.resolved hname, if_pos ⟨rfl, resolved_none hs hq⟩]

/-- Every step keeps the invariant. -/
theorem sound_step (hs : Sound sys) (hstep : sys.step m = some sys') : Sound sys' := by
  obtain ⟨h, es, hmove, hvalid, hh, hlog, hclock, harrivals, hresolved⟩ := step_eq hstep
  subst hh
  refine ⟨hmove.slave_ok hs.slave, ?_, ?_, ?_, ?_, ?_⟩
  · rw [hresolved]
    exact hmove.node_ok hvalid hs.node
  · intro stamp a ha
    rw [harrivals, update_apply] at ha
    rw [hclock]
    split at ha
    · omega
    · have hlt := hs.arrived stamp a ha
      omega
  · intro name q hq
    obtain hq | ⟨a, ha, hdest, rfl⟩ := hmove.unnamed hq
    · obtain ⟨a, ha, hdest, hmsg⟩ := hs.unnamed name q hq
      exact ⟨a, arrivals_step hs hstep ha, hdest, hmsg⟩
    · exact ⟨a, (arrivals_clock hstep).trans ha, hdest, rfl⟩
  · intro id q hq
    exact flows_settled hs hstep (hmove.waiting hq)
  · intro e he stamp hstamp
    rw [hlog] at he
    obtain he | he := List.mem_append.mp he
    · obtain ⟨id, hsettled⟩ := hs.passed e he stamp hstamp
      exact ⟨id, settled_step hs hstep hsettled⟩
    · obtain ⟨id, hflows⟩ := hmove.passed he hstamp
      exact ⟨id, flows_settled hs hstep hflows⟩

end Step

theorem sound_init (id slave : ℕ) : Sound (System.init id slave) where
  slave := fun _ => ⟨⟨fun _ => rfl, fun _ => rfl⟩, fun hne => absurd rfl hne⟩
  node := fun _ => ⟨fun _ => rfl, fun hne => absurd rfl hne⟩
  arrived := fun _ _ ha => absurd ha (by simp [System.init])
  unnamed := fun _ _ hm => absurd hm List.not_mem_nil
  waiting := fun _ _ hm => absurd hm List.not_mem_nil
  passed := fun _ he => absurd he List.not_mem_nil

theorem sound_run {id slave : ℕ} {ms : List Message} {sys : System}
    (hrun : run System.step (System.init id slave) ms = some sys) : Sound sys :=
  run_invariant_of_step (fun _ _ _ hs hstep => sound_step hs hstep) (sound_init id slave) hrun

end SkynetEureka.HarborService
