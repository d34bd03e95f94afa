import SkynetEureka.HarborService.System

/-!
# What a message does to the harbor service

`Move` has one constructor for each way in which a message changes the queues, the sockets and
the nodes; `mainloop_move` says that there are no others.
-/

namespace SkynetEureka.HarborService

open Lib Function

/-- The message does not give a handle to a name. -/
def NoName (m : Message) : Prop := ∀ resolved, resolve resolved m = resolved

/-- A message of a local service in a queue. -/
def Arrival.msg (a : Arrival) (low stamp : ℕ) : HarborMsg :=
  ⟨⟨a.source, a.type <<< handleRemoteShift ||| low, a.session⟩, a.buffer, stamp⟩

/-- A queued message that is passed on to a handle. -/
def HarborMsg.deliver (m : HarborMsg) (handle : ℕ) : Effect :=
  .deliver m.header.source handle (m.header.destination >>> handleRemoteShift) m.header.session
    m.buffer (some m.stamp)

/-- A queued message with the number of its handle. -/
def HarborMsg.fill (m : HarborMsg) (handle : ℕ) : HarborMsg :=
  { m with header := { m.header with
    destination := m.header.destination ||| (handle &&& handleMask) } }

/-- The messages that wait for a slave. -/
def Slave.waiting (s : Slave) : List HarborMsg := s.queue.getD []

/-- The messages that wait for a name. -/
def Harbor.unnamed (h : Harbor) (name : Name) : List HarborMsg := (h.map name).queue.getD []

/-- The harbor of a handle. -/
def harborOf (handle : ℕ) : ℕ := handle >>> handleRemoteShift

inductive Move (h : Harbor) (stamp : ℕ) : Message → Harbor → List Effect → Prop where
  /-- nothing but reports -/
  | idle {m es} (harrival : arrival h m = none) (hname : NoName m) (hes : Quiet es) :
    Move h stamp m h es
  /-- a slave reads, and its connection may be closed -/
  | read {m id s es} (harrival : arrival h m = none) (hname : NoName m) (hfd : (h.s id).fd ≠ 0)
    (hstatus : (h.s id).status = .header ∨ (h.s id).status = .content)
    (hs : HasRead (h.s id) s) (hes : Quiet es) : Move h stamp m (h.setSlave id s) es
  /-- a wrong handshake -/
  | refuse {m id es} (harrival : arrival h m = none) (hname : NoName m) (hfd : (h.s id).fd ≠ 0)
    (hstatus : (h.s id).status = .handshake) (hes : Quiet es) :
    Move h stamp m (h.setSlave id { h.s id with status := .down, queue := none }) es
  /-- a handshake, and what is read behind it -/
  | shake {m id s es} (harrival : arrival h m = none) (hname : NoName m) (hfd : (h.s id).fd ≠ 0)
    (hstatus : (h.s id).status = .handshake) (hs : HasRead { h.s id with queue := none } s)
    (hes : Quiet es) :
    Move h stamp m (h.setSlave id s)
      ((h.s id).waiting.map (.sendRemote (h.s id).fd .header) ++ es)
  | connect {m id fd es} (harrival : arrival h m = none) (hname : NoName m)
    (hfree : (h.s id).fd = 0) (hfd : fd ≠ 0) (hes : Quiet es) :
    Move h stamp m (h.setSlave id { h.s id with fd := fd, status := .handshake }) es
  | accept {m id fd es} (harrival : arrival h m = none) (hname : NoName m)
    (hfree : (h.s id).fd = 0) (hfd : fd ≠ 0) (hes : Quiet es) :
    Move h stamp m (h.setSlave id { h.s id with fd := fd, status := .header, queue := none })
      (es ++ (h.s id).waiting.map (.sendRemote fd .header))
  /-- a name gets a handle, and nothing waits for it -/
  | resolve {name handle} (hname : ValidName name) (hqueue : (h.map name).queue = none) :
    Move h stamp (.command (.name name) handle) (h.setNode name ⟨handle, none⟩) []
  /-- what waits for the name goes to a local service -/
  | resolveLocal {name handle} (hname : ValidName name) (hqueue : (h.map name).queue ≠ none)
    (hfd : (h.s (harborOf handle)).fd = 0) (hlocal : harborOf handle = harborOf h.slave) :
    Move h stamp (.command (.name name) handle)
      ((h.setNode name ⟨handle, none⟩).setSlave (harborOf handle)
        { h.s (harborOf handle) with queue := none })
      (((h.s (harborOf handle)).waiting ++ h.unnamed name).map fun m => m.deliver handle)
  /-- what waits for the name waits for the slave -/
  | resolveWait {name handle} (hname : ValidName name) (hqueue : (h.map name).queue ≠ none)
    (hfd : (h.s (harborOf handle)).fd = 0) (hremote : harborOf handle ≠ harborOf h.slave) :
    Move h stamp (.command (.name name) handle)
      ((h.setNode name ⟨handle, none⟩).setSlave (harborOf handle)
        { h.s (harborOf handle) with
          queue := some ((h.s (harborOf handle)).waiting ++ h.unnamed name) }) []
  /-- what waits for the name is sent -/
  | resolveSend {name handle} (hname : ValidName name) (hqueue : (h.map name).queue ≠ none)
    (hfd : (h.s (harborOf handle)).fd ≠ 0) :
    Move h stamp (.command (.name name) handle) (h.setNode name ⟨handle, none⟩)
      ((h.unnamed name).map fun m => .sendRemote (h.s (harborOf handle)).fd
        (h.s (harborOf handle)).status (m.fill handle))
  /-- what waits for the name is dropped -/
  | resolveDrop {name handle es} (hname : ValidName name)
    (hfd : (h.s (harborOf handle)).fd = 0) (hdown : (h.s (harborOf handle)).status = .down)
    (hes : Quiet es) :
    Move h stamp (.command (.name name) handle) (h.setNode name ⟨handle, none⟩) es
  | local {m a handle} (harrival : arrival h m = some a) (hdest : a.destination = .handle handle)
    (hname : NoName m) (hlocal : harborOf handle = h.id) :
    Move h stamp m h [.deliver a.source handle a.type a.session a.buffer (some stamp)]
  | wait {m a handle} (harrival : arrival h m = some a) (hdest : a.destination = .handle handle)
    (hname : NoName m) (hremote : harborOf handle ≠ h.id)
    (hfd : (h.s (harborOf handle)).fd = 0 ∨ (h.s (harborOf handle)).status = .handshake) :
    Move h stamp m (h.setSlave (harborOf handle) { h.s (harborOf handle) with
      queue := some ((h.s (harborOf handle)).waiting ++ [a.msg (handle &&& handleMask) stamp]) }) []
  | send {m a handle} (harrival : arrival h m = some a) (hdest : a.destination = .handle handle)
    (hname : NoName m) (hremote : harborOf handle ≠ h.id)
    (hfd : (h.s (harborOf handle)).fd ≠ 0)
    (hstatus : (h.s (harborOf handle)).status ≠ .handshake) :
    Move h stamp m h [.sendRemote (h.s (harborOf handle)).fd (h.s (harborOf handle)).status
      (a.msg (handle &&& handleMask) stamp)]
  /-- the branch of a harbor that is down -/
  | drop {m a handle es} (harrival : arrival h m = some a) (hdest : a.destination = .handle handle)
    (hname : NoName m) (hfd : (h.s (harborOf handle)).fd = 0)
    (hdown : (h.s (harborOf handle)).status = .down) (hes : Quiet es) : Move h stamp m h es
  /-- a message waits for a name -/
  | unresolved {m a name} (harrival : arrival h m = some a) (hdest : a.destination = .name name)
    (hname : NoName m) (hvalue : (h.map name).value = 0) :
    Move h stamp m (h.setNode name { h.map name with
      queue := some (h.unnamed name ++ [a.msg 0 stamp]) }) [.query name]

variable {h : Harbor} {stamp : ℕ}

/-- The slave that is found has the socket. -/
theorem harborId_fd {fd : ℕ} (hid : harborId h fd ≠ 0) : (h.s (harborId h fd)).fd = fd := by
  unfold harborId at *
  cases hfind : (List.range' 1 (remoteMax - 1)).find? fun i => (h.s i).fd = fd with
  | none =>
    rw [hfind] at hid
    exact (hid rfl).elim
  | some i => simpa using List.find?_some hfind

@[simp] theorem setNode_setNode (h : Harbor) (name : Name) (node node' : KeyValue) :
    (h.setNode name node).setNode name node' = h.setNode name node' := by
  simp only [Harbor.setNode, update_idem]

@[simp] theorem setNode_map (h : Harbor) (name : Name) (node : KeyValue) :
    (h.setNode name node).map name = node := update_self ..

theorem setSlave_self (h : Harbor) (id : ℕ) : h.setSlave id (h.s id) = h := by
  simp only [Harbor.setSlave, update_eq_self]

theorem pushSocketData_move {fd : ℕ} {buffer : List UInt8} {alive : ℕ → Bool} (hfd : fd ≠ 0) :
    Move h stamp (.data fd buffer alive) (pushSocketData h alive fd buffer).1
      (pushSocketData h alive fd buffer).2 := by
  have hname : NoName (.data fd buffer alive) := fun _ => rfl
  rw [pushSocketData]
  by_cases hid : harborId h fd = 0
  · simp only [hid, if_true]
    exact .idle rfl hname (quiet_nil.cons rfl)
  · simp only [if_neg hid]
    have hfd' : (h.s (harborId h fd)).fd ≠ 0 := by
      rw [harborId_fd hid]
      exact hfd
    generalize harborId h fd = id at *
    rw [pushSlave]
    cases hstatus : (h.s id).status with
    | handshake =>
      show Move h stamp _ (h.setSlave id (pushHandshake h.id alive id (h.s id) buffer).1)
        (pushHandshake h.id alive id (h.s id) buffer).2
      rw [pushHandshake]
      dsimp only
      split
      · exact .refuse rfl hname hfd' hstatus ((closeHarbor_quiet _).cons rfl)
      · rw [dispatchQueue_eq]
        obtain ⟨hreads, hquiet⟩ := @pushLoop_reads h.id alive id
          { h.s id with status := .header, queue := none } (buffer.drop 1)
          (pushRounds (buffer.drop 1)) (.inl rfl)
        exact .shake rfl hname hfd' hstatus ⟨hreads.fd, hreads.status, hreads.queue⟩ hquiet
    | header =>
      obtain ⟨hreads, hquiet⟩ := @pushLoop_reads h.id alive id (h.s id) buffer
        (pushRounds buffer) (.inl hstatus)
      exact .read rfl hname hfd' (.inl hstatus) hreads hquiet
    | content =>
      obtain ⟨hreads, hquiet⟩ := @pushLoop_reads h.id alive id (h.s id) buffer
        (pushRounds buffer) (.inr hstatus)
      exact .read rfl hname hfd' (.inr hstatus) hreads hquiet
    | wait =>
      simp only [pushRounds, pushLoop, hstatus, setSlave_self]
      exact .idle rfl hname quiet_nil
    | down =>
      simp only [pushRounds, pushLoop, hstatus, setSlave_self]
      exact .idle rfl hname quiet_nil

theorem newConnection_move {m : Message} {fd id : ℕ} (accept : Bool) (harrival : arrival h m = none)
    (hname : NoName m) :
    Move h stamp m (newConnection h fd id accept).1 (newConnection h fd id accept).2 := by
  have hquiet : Quiet [.socketStart fd, .handshake fd (UInt8.ofNat h.id)] :=
    (quiet_nil.cons rfl).cons rfl
  rw [newConnection]
  split
  · exact .idle harrival hname (quiet_nil.cons rfl)
  · next hok =>
    push Not at hok
    dsimp only
    split
    · exact .idle harrival hname (quiet_nil.cons rfl)
    · next hfree =>
      rw [ne_eq, not_not] at hfree
      cases accept with
      | true =>
        rw [if_pos rfl, dispatchQueue_eq]
        exact .accept harrival hname hfree hok.1 hquiet
      | false => exact .connect harrival hname hfree hok.1 hquiet

/-- The slave that `dispatch_name_queue` looks at is not touched by the name. -/
theorem setNode_s (h : Harbor) (name : Name) (node : KeyValue) :
    (h.setNode name node).s = h.s := rfl

theorem setSlave_setNode (h : Harbor) (id : ℕ) (s : Slave) (name : Name) (node : KeyValue) :
    (h.setSlave id s).setNode name node = (h.setNode name node).setSlave id s := rfl

theorem setSlave_map (h : Harbor) (id : ℕ) (s : Slave) : (h.setSlave id s).map = h.map := rfl

section DispatchNameQueue

variable {name : Name} {handle : ℕ} {q : List HarborMsg}

theorem dispatchNameQueue_drop (hnode : h.map name = ⟨handle, some q⟩)
    (hfd : (h.s (harborOf handle)).fd = 0) (hdown : (h.s (harborOf handle)).status = .down) :
    dispatchNameQueue h name = (h, [.error (.dropName name (harborOf handle))]) := by
  unfold dispatchNameQueue
  unfold harborOf at *
  simp only [hnode]
  rw [if_pos hfd, if_pos hdown]

theorem dispatchNameQueue_send (hnode : h.map name = ⟨handle, some q⟩)
    (hfd : (h.s (harborOf handle)).fd ≠ 0) :
    dispatchNameQueue h name = (h.setNode name ⟨handle, some []⟩,
      q.map fun m => .sendRemote (h.s (harborOf handle)).fd (h.s (harborOf handle)).status
        (m.fill handle)) := by
  unfold dispatchNameQueue
  unfold harborOf at *
  simp only [hnode]
  rw [if_neg hfd]
  rfl

/-- The queue of the name becomes that of the slave, or its end. -/
theorem dispatchNameQueue_wait (hnode : h.map name = ⟨handle, some q⟩)
    (hfd : (h.s (harborOf handle)).fd = 0) (hdown : (h.s (harborOf handle)).status ≠ .down)
    (hremote : harborOf handle ≠ harborOf h.slave) :
    ∃ queue, dispatchNameQueue h name = ((h.setNode name ⟨handle, queue⟩).setSlave
      (harborOf handle) { h.s (harborOf handle) with
        queue := some ((h.s (harborOf handle)).waiting ++ q) }, []) := by
  unfold dispatchNameQueue Slave.waiting
  unfold harborOf at *
  simp only [hnode]
  rw [if_pos hfd, if_neg hdown]
  cases hqueue : (h.s (handle >>> handleRemoteShift)).queue with
  | none =>
    refine ⟨none, ?_⟩
    exact if_neg hremote
  | some slaveQueue =>
    refine ⟨some [], ?_⟩
    exact if_neg hremote

theorem dispatchNameQueue_local (hnode : h.map name = ⟨handle, some q⟩)
    (hfd : (h.s (harborOf handle)).fd = 0) (hdown : (h.s (harborOf handle)).status ≠ .down)
    (hlocal : harborOf handle = harborOf h.slave) :
    ∃ queue, dispatchNameQueue h name = ((h.setNode name ⟨handle, queue⟩).setSlave
      (harborOf handle) { h.s (harborOf handle) with queue := none },
      ((h.s (harborOf handle)).waiting ++ q).map fun m => m.deliver handle) := by
  unfold dispatchNameQueue Slave.waiting
  unfold harborOf at *
  simp only [hnode]
  rw [if_pos hfd, if_neg hdown]
  cases hqueue : (h.s (handle >>> handleRemoteShift)).queue with
  | none =>
    refine ⟨none, ?_⟩
    exact if_pos hlocal
  | some slaveQueue =>
    refine ⟨some [], ?_⟩
    exact if_pos hlocal

end DispatchNameQueue

theorem updateName_move {name : Name} {handle : ℕ} (hname : ValidName name) :
    Move h stamp (.command (.name name) handle) (updateName h name handle).1
      (updateName h name handle).2 := by
  unfold updateName
  simp only [setNode_map]
  cases hqueue : (h.map name).queue with
  | none => exact .resolve hname hqueue
  | some q =>
    have hne : (h.map name).queue ≠ none := by
      rw [hqueue]
      simp
    have hunnamed : h.unnamed name = q := by
      rw [Harbor.unnamed, hqueue]
      rfl
    have hnode : (h.setNode name ⟨handle, some q⟩).map name = ⟨handle, some q⟩ := setNode_map ..
    simp only
    by_cases hfd : (h.s (harborOf handle)).fd = 0
    · by_cases hdown : (h.s (harborOf handle)).status = .down
      · rw [dispatchNameQueue_drop hnode hfd hdown]
        simp only [setNode_setNode, setNode_map]
        exact .resolveDrop hname hfd hdown (quiet_nil.cons rfl)
      · by_cases hlocal : harborOf handle = harborOf h.slave
        · obtain ⟨queue, hdispatch⟩ := dispatchNameQueue_local hnode hfd hdown hlocal
          rw [hdispatch]
          simp only [setSlave_setNode, setNode_setNode, setSlave_map, setNode_map]
          rw [← hunnamed]
          exact .resolveLocal hname hne hfd hlocal
        · obtain ⟨queue, hdispatch⟩ := dispatchNameQueue_wait hnode hfd hdown hlocal
          rw [hdispatch]
          simp only [setSlave_setNode, setNode_setNode, setSlave_map, setNode_map]
          rw [← hunnamed]
          exact .resolveWait hname hne hfd hlocal
    · rw [dispatchNameQueue_send hnode hfd]
      simp only [setNode_setNode, setNode_map]
      rw [← hunnamed]
      exact .resolveSend hname hne hfd

theorem remoteSendHandle_move {m : Message} {a : Arrival} {handle : ℕ}
    (harrival : arrival h m = some a) (hdest : a.destination = .handle handle) (hname : NoName m) :
    Move h stamp m
      (remoteSendHandle h a.source handle a.type a.session a.buffer stamp).1
      (remoteSendHandle h a.source handle a.type a.session a.buffer stamp).2 := by
  unfold remoteSendHandle
  dsimp only
  rw [show handle >>> handleRemoteShift = harborOf handle from rfl]
  by_cases hlocal : harborOf handle = h.id
  · rw [if_pos hlocal]
    exact .local harrival hdest hname hlocal
  · rw [if_neg hlocal]
    by_cases hfd : (h.s (harborOf handle)).fd = 0 ∨ (h.s (harborOf handle)).status = .handshake
    · rw [if_pos hfd]
      by_cases hdown : (h.s (harborOf handle)).status = .down
      · rw [if_pos hdown]
        have hfree : (h.s (harborOf handle)).fd = 0 := by
          apply hfd.resolve_right
          rw [hdown]
          simp
        exact .drop harrival hdest hname hfree hdown ((quiet_nil.cons rfl).cons rfl)
      · rw [if_neg hdown]
        exact .wait harrival hdest hname hlocal hfd
    · rw [if_neg hfd]
      push Not at hfd
      exact .send harrival hdest hname hlocal hfd.1 hfd.2

/-- Every message is a move. -/
theorem mainloop_move (h : Harbor) (stamp : ℕ) (m : Message) (hvalid : m.Valid) :
    Move h stamp m (mainloop h stamp m).1 (mainloop h stamp m).2 := by
  cases m with
  | data fd buffer alive => exact pushSocketData_move hvalid.1
  | closed fd =>
    have hname : NoName (.closed fd) := fun _ => rfl
    rw [mainloop]
    split
    · exact .idle rfl hname (quiet_nil.cons rfl)
    · exact .idle rfl hname (quiet_nil.cons rfl)
  | connected => exact .idle rfl (fun _ => rfl) quiet_nil
  | warning fd size =>
    have hname : NoName (.warning fd size) := fun _ => rfl
    rw [mainloop]
    split
    · exact .idle rfl hname (quiet_nil.cons rfl)
    · exact .idle rfl hname quiet_nil
  | otherSocket => exact .idle rfl (fun _ => rfl) (quiet_nil.cons rfl)
  | command command source =>
    rw [mainloop, harborCommand.eq_def]
    cases command with
    | name name =>
      dsimp only
      split
      · next hinvalid =>
        have hname : NoName (.command (.name name) source) := by
          intro resolved
          apply if_neg
          unfold ValidName
          omega
        exact .idle rfl hname (quiet_nil.cons rfl)
      · next hok =>
        have hname : ValidName name := by
          unfold ValidName
          omega
        exact updateName_move hname
    | connect fd id => exact newConnection_move false rfl fun _ => rfl
    | accept fd id => exact newConnection_move true rfl fun _ => rfl
    | unknown => exact .idle rfl (fun _ => rfl) (quiet_nil.cons rfl)
  | remote source destination type session msg =>
    rw [mainloop]
    have hname : NoName (.remote source destination type session msg) := fun _ => rfl
    by_cases hhandle : destination.handle = 0
    · rw [if_pos hhandle, remoteSendName]
      by_cases hvalue : (h.map destination.name).value = 0
      · have harrival : arrival h (.remote source destination type session msg) =
            some ⟨source, .name destination.name, type, session, msg⟩ := by
          simp [arrival, hhandle, hvalue]
        simp only [hvalue, if_true]
        have hmove := @Move.unresolved h stamp _ _ _ harrival rfl hname hvalue
        simpa [Arrival.msg, Harbor.unnamed, hvalue] using hmove
      · have harrival : arrival h (.remote source destination type session msg) =
            some ⟨source, .handle (h.map destination.name).value, type, session, msg⟩ := by
          simp [arrival, hhandle, hvalue]
        simp only [hvalue, if_false]
        exact remoteSendHandle_move harrival rfl hname
    · have harrival : arrival h (.remote source destination type session msg) =
          some ⟨source, .handle destination.handle, type, session, msg⟩ := by
        simp [arrival, hhandle]
      rw [if_neg hhandle]
      exact remoteSendHandle_move harrival rfl hname
  | other source type session =>
    have hname : NoName (.other source type session) := fun _ => rfl
    apply Move.idle rfl hname
    apply Quiet.cons rfl
    split
    · exact quiet_nil.cons rfl
    · exact quiet_nil

end SkynetEureka.HarborService
