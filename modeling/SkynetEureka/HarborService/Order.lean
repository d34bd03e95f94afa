import SkynetEureka.HarborService.Sound

/-!
# The order of sending

For each slave the messages that were sent, followed by those that wait for the slave, are in the
order in which they came in, as far as one source and one handle are concerned. A step puts new
messages at the end of this list, or moves messages from the queue to the socket.
-/

namespace SkynetEureka.HarborService

open Lib Function

/-- The message that goes to a socket. -/
def Effect.sent : Effect → Option ℕ
  | .sendRemote _ _ q => some q.stamp
  | _ => none

/-- The messages that were sent, in order. -/
def sentStamps (log : List Effect) : List ℕ := log.filterMap Effect.sent

def stamps (queue : List HarborMsg) : List ℕ := queue.map HarborMsg.stamp

/-- Two messages of one source to one handle have come in in this order. -/
def System.Before (sys : System) (stamp stamp' : ℕ) : Prop :=
  ∀ a a' handle, sys.arrivals stamp = some a → sys.arrivals stamp' = some a' →
    a.source = a'.source → a.target sys.resolved = some handle →
    a'.target sys.resolved = some handle → stamp < stamp'

/-- The queue of a name may go to this slave: not in the window of the handshake and not to a dead
socket, and no message has overtaken it. -/
def MayFlush (sys : System) (name : Name) (handle : ℕ) : Prop :=
  ((sys.h.s (harborOf handle)).fd = 0 ∨ (sys.h.s (harborOf handle)).status = .header ∨
    (sys.h.s (harborOf handle)).status = .content) ∧
  ∀ q ∈ sys.h.unnamed name, ∀ stamp < sys.clock, ∀ a ∈ sys.arrivals stamp,
    a.source = q.header.source → a.target sys.resolved = some handle → stamp < q.stamp

instance (sys : System) (name : Name) (handle : ℕ) : Decidable (MayFlush sys name handle) :=
  inferInstanceAs (Decidable (_ ∧ _))

/-- The message may go to this slave: it is not down. -/
def MaySend (h : Harbor) : Destination → Prop
  | .handle handle => harborOf handle ≠ h.id → (h.s (harborOf handle)).status ≠ .down
  | .name _ => True

instance (h : Harbor) : (destination : Destination) → Decidable (MaySend h destination)
  | .handle handle => inferInstanceAs
      (Decidable (harborOf handle ≠ h.id → (h.s (harborOf handle)).status ≠ .down))
  | .name _ => inferInstanceAs (Decidable True)

/-- What the order rests on. -/
def Orderly (sys : System) : Message → Prop
  | .command (.name name) handle => sys.h.unnamed name ≠ [] →
    (sys.h.s (harborOf handle)).fd = 0 ∧ harborOf handle = harborOf sys.h.slave ∨
      MayFlush sys name handle
  | m => ∀ a ∈ arrival sys.h m, MaySend sys.h a.destination

instance (sys : System) : (m : Message) → Decidable (Orderly sys m)
  | .command (.name name) handle => inferInstanceAs (Decidable (sys.h.unnamed name ≠ [] →
    (sys.h.s (harborOf handle)).fd = 0 ∧ harborOf handle = harborOf sys.h.slave ∨
      MayFlush sys name handle))
  | .command (.connect ..) _ | .command (.accept ..) _ | .command .unknown _ | .data .. | .closed ..
  | .connected | .warning .. | .otherSocket | .remote .. | .other .. =>
    inferInstanceAs (Decidable (∀ a ∈ arrival sys.h _, MaySend sys.h a.destination))

structure Ordered (sys : System) : Prop where
  sent : ∀ fd status q, .sendRemote fd status q ∈ sys.log →
    (status = .header ∨ status = .content) ∧
      ∃ id, sys.Settled id q.stamp ∧ (sys.h.s id).fd = fd ∧ fd ≠ 0
  unnamed : ∀ name, (stamps (sys.h.unnamed name)).Pairwise (· < ·)
  order : ∀ id, (sentStamps sys.log ++ stamps (sys.h.s id).waiting).Pairwise sys.Before

variable {h h' : Harbor} {stamp : ℕ} {m : Message} {es : List Effect}

/-! ## What a move sends -/

theorem sentStamps_append (es es' : List Effect) :
    sentStamps (es ++ es') = sentStamps es ++ sentStamps es' := List.filterMap_append ..

theorem Quiet.sentStamps (hes : Quiet es) : sentStamps es = [] := by
  apply List.filterMap_eq_nil_iff.mpr
  intro e he
  have hstamp := hes e he
  cases e with
  | sendRemote => exact absurd hstamp (by simp [Effect.stamp])
  | _ => rfl

theorem sentStamps_sendRemote (queue : List HarborMsg) (fd : ℕ) (status : Status) :
    sentStamps (queue.map (.sendRemote fd status)) = stamps queue := by
  rw [HarborService.sentStamps, List.filterMap_map]
  exact congrFun List.filterMap_eq_map queue

theorem sentStamps_fill (queue : List HarborMsg) (fd : ℕ) (status : Status) (handle : ℕ) :
    sentStamps (queue.map fun q => .sendRemote fd status (q.fill handle)) = stamps queue := by
  rw [HarborService.sentStamps, List.filterMap_map]
  exact congrFun List.filterMap_eq_map queue

theorem sentStamps_deliver (queue : List HarborMsg) (handle : ℕ) :
    sentStamps (queue.map fun q => q.deliver handle) = [] := by
  apply List.filterMap_eq_nil_iff.mpr
  intro e he
  obtain ⟨q, _, rfl⟩ := List.mem_map.mp he
  rfl

/-- The new messages at the end of the queue of the slave `id`. -/
inductive Joins (sys : System) : Message → ℕ → List ℕ → Prop where
  | nothing {m id} : Joins sys m id []
  | arrival {m id} (hcomes : Comes sys.h m id) : Joins sys m id [sys.clock]
  | name {name handle} (hname : ValidName name) (hflush : MayFlush sys name handle) :
    Joins sys (.command (.name name) handle) (harborOf handle) (stamps (sys.h.unnamed name))

/-- What a move does to the sent messages and to the queues of the slaves. -/
def Advances (sys : System) (m : Message) (h : Harbor) (es : List Effect) : Prop :=
  ∃ id new, Joins sys m id new ∧
    (sentStamps es ++ stamps (h.s id).waiting).Sublist (stamps (sys.h.s id).waiting ++ new) ∧
    ∀ id', id' ≠ id → (h.s id').waiting = (sys.h.s id').waiting

/-- Nothing is sent, and the queues of the slaves stay the same. -/
theorem advances_of_eq {sys : System} (hes : sentStamps es = [])
    (hs : ∀ id, (h.s id).waiting = (sys.h.s id).waiting) : Advances sys m h es := by
  refine ⟨0, [], .nothing, ?_, fun id _ => hs id⟩
  rw [hes, hs, List.append_nil, List.nil_append]

/-- Only one slave is changed. -/
theorem advances_setSlave {sys : System} {id : ℕ} {s : Slave} {new : List ℕ} (hh : h.s = sys.h.s)
    (hjoins : Joins sys m id new)
    (hs : (sentStamps es ++ stamps s.waiting).Sublist (stamps (sys.h.s id).waiting ++ new)) :
    Advances sys m (h.setSlave id s) es := by
  refine ⟨id, new, hjoins, ?_, fun id' hne => ?_⟩
  · rw [setSlave_s, if_pos rfl]
    exact hs
  · rw [setSlave_s, if_neg hne, hh]

theorem stamps_append (queue queue' : List HarborMsg) :
    stamps (queue ++ queue') = stamps queue ++ stamps queue' := List.map_append

theorem HasRead.waiting_sublist {s s' : Slave} (hs : HasRead s s') :
    s'.waiting.Sublist s.waiting := by
  unfold Slave.waiting
  obtain hsame | hclosed := hs.queue
  · rw [hsame]
  · rw [hclosed.2]
    exact List.nil_sublist _

section Step

variable {sys sys' : System}

theorem waiting_nil (hs : Sound sys) {id : ℕ} (hfd : (sys.h.s id).fd ≠ 0)
    (hstatus : (sys.h.s id).status ≠ .handshake) : (sys.h.s id).waiting = [] := by
  rw [Slave.waiting, (hs.slave id).queue hfd hstatus]
  rfl

theorem Move.advances (hmove : Move sys.h sys.clock m h es) (hs : Sound sys)
    (hok : Orderly sys m) : Advances sys m h es := by
  cases hmove with
  | idle _ _ hes => exact advances_of_eq hes.sentStamps fun _ => rfl
  | read _ _ _ _ hread hes =>
    apply advances_setSlave rfl .nothing
    rw [hes.sentStamps, List.append_nil, List.nil_append]
    exact hread.waiting_sublist.map _
  | refuse _ _ _ _ hes =>
    apply advances_setSlave rfl .nothing
    rw [hes.sentStamps]
    exact List.nil_sublist _
  | shake _ _ _ _ hread hes =>
    apply advances_setSlave rfl .nothing
    have hnil := List.sublist_nil.mp hread.waiting_sublist
    rw [sentStamps_append, sentStamps_sendRemote, hes.sentStamps, hnil]
    simp [stamps]
  | connect _ _ _ _ hes =>
    apply advances_setSlave rfl .nothing
    rw [hes.sentStamps, List.append_nil]
    exact List.Sublist.refl _
  | accept _ _ _ _ hes =>
    apply advances_setSlave rfl .nothing
    rw [sentStamps_append, sentStamps_sendRemote, hes.sentStamps]
    simp [stamps, Slave.waiting]
  | resolve => exact advances_of_eq rfl fun _ => rfl
  | @resolveLocal name handle _ _ _ _ =>
    apply advances_setSlave rfl .nothing
    rw [sentStamps_deliver]
    exact List.nil_sublist _
  | @resolveWait name handle hname _ _ hremote =>
    by_cases hne : sys.h.unnamed name = []
    · apply advances_setSlave rfl .nothing
      simp [hne, Slave.waiting, sentStamps]
    · obtain hlocal | hflush := hok hne
      · exact absurd hlocal.2 hremote
      · apply advances_setSlave rfl (.name hname hflush)
        rw [← stamps_append]
        exact List.Sublist.refl _
  | @resolveSend name handle hname _ hfd =>
    by_cases hne : sys.h.unnamed name = []
    · apply advances_of_eq ?_ fun _ => rfl
      rw [hne]
      rfl
    · obtain hlocal | hflush := hok hne
      · exact absurd hlocal.1 hfd
      · refine ⟨harborOf handle, _, .name hname hflush, ?_, fun _ _ => rfl⟩
        have hstatus : (sys.h.s (harborOf handle)).status ≠ .handshake := by
          intro hhandshake
          simpa [hfd, hhandshake] using hflush.1
        rw [sentStamps_fill, setNode_s, waiting_nil hs hfd hstatus]
        simp [stamps]
  | resolveDrop _ _ _ hes => exact advances_of_eq hes.sentStamps fun _ => rfl
  | «local» => exact advances_of_eq rfl fun _ => rfl
  | @wait _ a handle harrival hdest _ _ _ =>
    apply advances_setSlave rfl (.arrival ⟨a, handle, harrival, hdest, rfl⟩)
    show (stamps (_ ++ _)).Sublist _
    rw [stamps_append]
    exact List.Sublist.refl _
  | @send _ a handle harrival hdest _ _ hfd hstatus =>
    refine ⟨harborOf handle, _, .arrival ⟨a, handle, harrival, hdest, rfl⟩, ?_, fun _ _ => rfl⟩
    rw [waiting_nil hs hfd hstatus]
    exact List.Sublist.refl _
  | drop _ _ _ _ _ hes => exact advances_of_eq hes.sentStamps fun _ => rfl
  | unresolved => exact advances_of_eq rfl fun _ => rfl

/-! ## What a step keeps in order -/

theorem before_step (hs : Sound sys) (hstep : sys.step m = some sys') {id id' stamp stamp' : ℕ}
    (hsettled : sys.Settled id stamp) (hsettled' : sys.Settled id' stamp')
    (hbefore : sys.Before stamp stamp') : sys'.Before stamp stamp' := by
  obtain ⟨b, known, hb, hknown, _⟩ := hsettled
  obtain ⟨b', known', hb', hknown', _⟩ := hsettled'
  obtain ⟨_, _, _, _, _, _, _, _, hresolved⟩ := step_eq hstep
  intro a a' handle ha ha' hsource htarget htarget'
  rw [arrivals_step hs hstep hb] at ha
  rw [arrivals_step hs hstep hb'] at ha'
  cases ha
  cases ha'
  rw [hresolved, target_resolve hknown] at htarget
  rw [hresolved, target_resolve hknown'] at htarget'
  cases htarget
  cases htarget'
  exact hbefore b b' known hb hb' hsource hknown hknown'

/-- Messages to different harbors have no order. -/
theorem before_of_ne {id id' stamp stamp' : ℕ} (hsettled : sys.Settled id stamp)
    (hsettled' : sys.Settled id' stamp') (hne : id ≠ id') : sys.Before stamp stamp' := by
  obtain ⟨b, known, hb, hknown, hid⟩ := hsettled
  obtain ⟨b', known', hb', hknown', hid'⟩ := hsettled'
  intro a a' handle ha ha' _ htarget htarget'
  rw [hb] at ha
  rw [hb'] at ha'
  cases ha
  cases ha'
  rw [hknown] at htarget
  rw [hknown'] at htarget'
  cases htarget
  cases htarget'
  exact absurd (hid.symm.trans hid') hne

/-- What joins a queue comes after everything that was there. -/
theorem before_joins (hs : Sound sys) (hstep : sys.step m = some sys')
    {id id' : ℕ} {new : List ℕ} (hjoins : Joins sys m id new) {stamp stamp' : ℕ}
    (hsettled : sys.Settled id' stamp) (hnew : stamp' ∈ new) : sys'.Before stamp stamp' := by
  obtain ⟨b, known, hb, hknown, _⟩ := hsettled
  cases hjoins with
  | nothing => exact absurd hnew List.not_mem_nil
  | arrival =>
    rw [List.mem_singleton] at hnew
    subst hnew
    intro _ _ _ _ _ _ _ _
    exact hs.arrived stamp b hb
  | @name name handle hname hflush =>
    obtain ⟨q, hq, rfl⟩ := List.mem_map.mp hnew
    obtain ⟨b', hb', hdest, hmsg⟩ := hs.unnamed name q hq
    obtain ⟨_, _, _, _, _, _, _, _, hresolved⟩ := step_eq hstep
    intro a a' handle' ha ha' hsource htarget htarget'
    rw [arrivals_step hs hstep hb] at ha
    rw [arrivals_step hs hstep hb'] at ha'
    cases ha
    cases ha'
    have hknown' : known = handle' := by
      rw [hresolved, target_resolve hknown] at htarget
      exact Option.some.inj htarget
    have hhandle : handle = handle' := by
      rw [Arrival.target, hdest] at htarget'
      dsimp only at htarget'
      rw [hresolved, resolve_name _ hname, if_pos ⟨rfl, resolved_none hs hq⟩] at htarget'
      exact Option.some.inj htarget'
    have hqsource : b.source = q.header.source := by
      rw [hsource, hmsg]
      rfl
    rw [hknown', ← hhandle] at hknown
    exact hflush.2 q hq stamp (hs.arrived stamp b hb) b hb hqsource hknown

theorem before_of_lt {stamp stamp' : ℕ} (hlt : stamp < stamp') : sys.Before stamp stamp' :=
  fun _ _ _ _ _ _ _ _ => hlt

theorem joins_pairwise {id : ℕ} {new : List ℕ} (hjoins : Joins sys m id new)
    (hsorted : ∀ name, (stamps (sys.h.unnamed name)).Pairwise (· < ·)) :
    new.Pairwise sys'.Before := by
  cases hjoins with
  | nothing => exact List.Pairwise.nil
  | arrival => exact List.pairwise_singleton _ _
  | @name name _ _ _ => exact (hsorted name).imp before_of_lt

/-- Every message in the list of a slave has its handle. -/
theorem settled_order (hs : Sound sys) {id stamp : ℕ}
    (hmem : stamp ∈ sentStamps sys.log ++ stamps (sys.h.s id).waiting) :
    ∃ id, sys.Settled id stamp := by
  obtain hmem | hmem := List.mem_append.mp hmem
  · obtain ⟨e, he, hsent⟩ := List.mem_filterMap.mp hmem
    cases e with
    | sendRemote fd status q =>
      cases hsent
      exact hs.passed _ he q.stamp rfl
    | _ => exact absurd hsent (by simp [Effect.sent])
  · obtain ⟨q, hq, rfl⟩ := List.mem_map.mp hmem
    exact ⟨id, hs.waiting id q hq⟩

theorem settled_waiting (hs : Sound sys) {id stamp : ℕ}
    (hmem : stamp ∈ stamps (sys.h.s id).waiting) : sys.Settled id stamp := by
  obtain ⟨q, hq, rfl⟩ := List.mem_map.mp hmem
  exact hs.waiting id q hq

/-- The messages that join the list of a slave go to its harbor. -/
theorem settled_joins (hs : Sound sys) (hstep : sys.step m = some sys') {id stamp : ℕ}
    {new : List ℕ} (hjoins : Joins sys m id new) (hnew : stamp ∈ new) : sys'.Settled id stamp := by
  cases hjoins with
  | nothing => exact absurd hnew List.not_mem_nil
  | arrival hcomes =>
    rw [List.mem_singleton] at hnew
    exact flows_settled hs hstep (.inr (.inl ⟨hcomes, hnew⟩))
  | @name name handle hname _ =>
    obtain ⟨q, hq, hstamp⟩ := List.mem_map.mp hnew
    exact flows_settled hs hstep (.inr (.inr ⟨name, ⟨handle, rfl, hname, rfl⟩, q, hq, hstamp⟩))

/-- The lists of the slaves stay in order. -/
theorem order_step (hs : Sound sys) (ho : Ordered sys) (hok : Orderly sys m)
    (hstep : sys.step m = some sys') (id : ℕ) :
    (sentStamps sys'.log ++ stamps (sys'.h.s id).waiting).Pairwise sys'.Before := by
  obtain ⟨h, es, hmove, _, rfl, hlog, _⟩ := step_eq hstep
  have hs' := sound_step hs hstep
  obtain ⟨id₀, new, hjoins, hsub, hframe⟩ := hmove.advances hs hok
  have hold : ∀ id, (sentStamps sys.log ++ stamps (sys.h.s id).waiting).Pairwise sys'.Before := by
    intro id
    apply (ho.order id).imp_of_mem
    intro stamp stamp' hmem hmem' hbefore
    obtain ⟨_, hsettled⟩ := settled_order hs hmem
    obtain ⟨_, hsettled'⟩ := settled_order hs hmem'
    exact before_step hs hstep hsettled hsettled' hbefore
  -- the list of the slave that is changed, and of what is new
  have hnew : (sentStamps sys.log ++ (stamps (sys.h.s id₀).waiting ++ new)).Pairwise
      sys'.Before := by
    rw [← List.append_assoc, List.pairwise_append]
    refine ⟨hold id₀, joins_pairwise hjoins ho.unnamed, fun stamp hmem stamp' hnew => ?_⟩
    obtain ⟨_, hsettled⟩ := settled_order hs hmem
    exact before_joins hs hstep hjoins hsettled hnew
  have hchanged : (sentStamps sys.log ++ (sentStamps es ++ stamps (sys'.h.s id₀).waiting)).Pairwise
      sys'.Before := hnew.sublist ((List.Sublist.refl _).append hsub)
  rw [hlog, sentStamps_append]
  by_cases hid : id = id₀
  · rw [hid, List.append_assoc]
    exact hchanged
  · rw [hframe id hid, List.pairwise_append]
    rw [← List.append_assoc, List.pairwise_append] at hchanged
    refine ⟨hchanged.1, (List.pairwise_append.mp (hold id)).2.1, fun stamp hmem stamp' hmem' => ?_⟩
    obtain hmem | hmem := List.mem_append.mp hmem
    · exact (List.pairwise_append.mp (hold id)).2.2 stamp hmem stamp' hmem'
    · -- what is sent now goes to another harbor than what waits for this one
      have hsettled' := settled_step hs hstep (settled_waiting hs hmem')
      have hsettled : sys'.Settled id₀ stamp := by
        have hsource := hsub.subset (List.mem_append_left _ hmem)
        obtain hwaits | hjoined := List.mem_append.mp hsource
        · exact settled_step hs hstep (settled_waiting hs hwaits)
        · exact settled_joins hs hstep hjoins hjoined
      exact before_of_ne hsettled hsettled' (Ne.symm hid)

theorem Move.unnamed_sorted (hmove : Move h stamp m h' es)
    (hlt : ∀ name, ∀ q ∈ h.unnamed name, q.stamp < stamp)
    (hsorted : ∀ name, (stamps (h.unnamed name)).Pairwise (· < ·)) (name : Name) :
    (stamps (h'.unnamed name)).Pairwise (· < ·) := by
  obtain ⟨_, heq⟩ | ⟨a, _, _, _, heq⟩ | ⟨heq, _⟩ := hmove.unnamed_cases name
  · rw [heq]
    exact List.Pairwise.nil
  · rw [heq, stamps_append, List.pairwise_append]
    refine ⟨hsorted name, List.pairwise_singleton _ _, fun i hi j hj => ?_⟩
    obtain ⟨q, hq, rfl⟩ := List.mem_map.mp hi
    rw [List.mem_singleton.mp hj]
    exact hlt name q hq
  · rw [heq]
    exact hsorted name

/-- What is sent goes to the socket of its harbor, and only after the handshake. -/
theorem Move.sent (hmove : Move sys.h sys.clock m h es) (hs : Sound sys) (hok : Orderly sys m)
    {fd : ℕ} {status : Status} {q : HarborMsg} (he : .sendRemote fd status q ∈ es) :
    (status = .header ∨ status = .content) ∧
      ∃ id, Flows sys.h sys.clock m id q.stamp ∧ (h.s id).fd = fd ∧ fd ≠ 0 := by
  have hquiet : ∀ {es : List Effect}, Quiet es → .sendRemote fd status q ∉ es := by
    intro es hes he
    exact absurd (hes _ he) (by simp [Effect.stamp])
  cases hmove with
  | idle _ _ hes => exact absurd he (hquiet hes)
  | read _ _ _ _ _ hes => exact absurd he (hquiet hes)
  | refuse _ _ _ _ hes => exact absurd he (hquiet hes)
  | @shake _ id s _ _ _ hfd _ hread hes =>
    obtain he | he := List.mem_append.mp he
    · obtain ⟨q, hq, heq⟩ := List.mem_map.mp he
      cases heq
      refine ⟨.inl rfl, id, flows_of_waiting hq, ?_, hfd⟩
      rw [setSlave_s, if_pos rfl]
      exact hread.fd
    · exact absurd he (hquiet hes)
  | connect _ _ _ _ hes => exact absurd he (hquiet hes)
  | @accept _ id fd _ _ _ _ hfd hes =>
    obtain he | he := List.mem_append.mp he
    · exact absurd he (hquiet hes)
    · obtain ⟨q, hq, heq⟩ := List.mem_map.mp he
      cases heq
      refine ⟨.inl rfl, id, flows_of_waiting hq, ?_, hfd⟩
      rw [setSlave_s, if_pos rfl]
  | resolve => exact absurd he List.not_mem_nil
  | resolveLocal =>
    obtain ⟨q, _, heq⟩ := List.mem_map.mp he
    cases heq
  | resolveWait => exact absurd he List.not_mem_nil
  | @resolveSend name handle hname _ hfd =>
    obtain ⟨q, hq, heq⟩ := List.mem_map.mp he
    cases heq
    obtain hlocal | hflush := hok (List.ne_nil_of_mem hq)
    · exact absurd hlocal.1 hfd
    · refine ⟨hflush.1.resolve_left hfd, harborOf handle, ?_, rfl, hfd⟩
      exact .inr (.inr ⟨name, ⟨handle, rfl, hname, rfl⟩, q, hq, rfl⟩)
  | resolveDrop _ _ _ hes => exact absurd he (hquiet hes)
  | «local» => exact absurd (List.mem_singleton.mp he) (by simp)
  | wait => exact absurd he List.not_mem_nil
  | @send _ a handle harrival hdest _ hremote hfd hstatus =>
    cases List.mem_singleton.mp he
    refine ⟨?_, harborOf handle, .inr (.inl ⟨⟨a, handle, harrival, hdest, rfl⟩, rfl⟩), rfl, hfd⟩
    have hwait : (sys.h.s (harborOf handle)).status ≠ .wait := by
      intro hwait
      exact hfd ((hs.slave (harborOf handle)).wait.mpr hwait)
    have hdown : (sys.h.s (harborOf handle)).status ≠ .down := by
      have hmay : MaySend sys.h a.destination := by
        cases m with
        | command => exact absurd harrival (by simp [arrival])
        | _ => exact hok a harrival
      rw [hdest] at hmay
      exact hmay hremote
    cases hcase : (sys.h.s (harborOf handle)).status with
    | wait => exact absurd hcase hwait
    | handshake => exact absurd hcase hstatus
    | header => exact .inl rfl
    | content => exact .inr rfl
    | down => exact absurd hcase hdown
  | drop _ _ _ _ _ hes => exact absurd he (hquiet hes)
  | unresolved => exact absurd (List.mem_singleton.mp he) (by simp)

/-- Every guarded step keeps the order. -/
theorem ordered_step (hs : Sound sys) (ho : Ordered sys) (hok : Orderly sys m)
    (hstep : sys.step m = some sys') : Ordered sys' := by
  refine ⟨?_, ?_, order_step hs ho hok hstep⟩
  · intro fd status q he
    obtain ⟨h, es, hmove, _, rfl, hlog, _⟩ := step_eq hstep
    rw [hlog] at he
    obtain he | he := List.mem_append.mp he
    · obtain ⟨hstatus, id, hsettled, hid, hfd⟩ := ho.sent fd status q he
      refine ⟨hstatus, id, settled_step hs hstep hsettled, ?_, hfd⟩
      rw [hmove.fd_eq (hid.symm ▸ hfd)]
      exact hid
    · obtain ⟨hstatus, id, hflows, hid, hfd⟩ := hmove.sent hs hok he
      exact ⟨hstatus, id, flows_settled hs hstep hflows, hid, hfd⟩
  · obtain ⟨h, es, hmove, _, rfl, _⟩ := step_eq hstep
    apply hmove.unnamed_sorted (fun name q hq => ?_) ho.unnamed
    obtain ⟨a, ha, _⟩ := hs.unnamed name q hq
    exact hs.arrived q.stamp a ha

end Step

theorem ordered_init (id slave : ℕ) : Ordered (System.init id slave) where
  sent := fun _ _ _ he => absurd he List.not_mem_nil
  unnamed := fun _ => List.Pairwise.nil
  order := fun _ => List.Pairwise.nil

/-- In an orderly run a message is sent to the socket of its harbor after the handshake, and the
messages of one source to one handle are sent in the order in which they have come in. -/
theorem sending_ordered {id slave : ℕ} {ms : List Message} {sys : System}
    (hguard : Guarded System.step Orderly (System.init id slave) ms)
    (hrun : run System.step (System.init id slave) ms = some sys) :
    (∀ fd status q, .sendRemote fd status q ∈ sys.log →
      (status = .header ∨ status = .content) ∧ fd ≠ 0 ∧
      ∃ a handle, sys.arrivals q.stamp = some a ∧ a.target sys.resolved = some handle ∧
        (sys.h.s (harborOf handle)).fd = fd) ∧
    (sentStamps sys.log).Pairwise sys.Before := by
  have hinv : Sound sys ∧ Ordered sys :=
    @run_invariant _ _ System.step Orderly (System.init id slave) sys ms
      (fun sys => Sound sys ∧ Ordered sys)
      (fun _ _ _ hinv hok hstep => ⟨sound_step hinv.1 hstep, ordered_step hinv.1 hinv.2 hok hstep⟩)
      ⟨sound_init id slave, ordered_init id slave⟩ hguard hrun
  refine ⟨fun fd status q he => ?_, ?_⟩
  · obtain ⟨hstatus, _, ⟨a, handle, ha, htarget, rfl⟩, hid, hfd⟩ := hinv.2.sent fd status q he
    exact ⟨hstatus, hfd, a, handle, ha, htarget, hid⟩
  · exact (List.pairwise_append.mp (hinv.2.order 0)).1

/-- The message to the name waits behind the one to the handle, and a third is sent behind both. -/
theorem sending_ordered_merged :
    ∃ sys, run System.step (System.init 1 0x1000005)
        [.remote 0x1000009 ⟨[], 0x2000007⟩ 3 7 [1], .remote 0x1000009 ⟨[65], 0⟩ 3 8 [2],
          .command (.name [65]) 0x2000007, .command (.accept 9 2) 0x1000005,
          .remote 0x1000009 ⟨[65], 0⟩ 3 9 [3]] = some sys ∧
      sentStamps sys.log = [0, 1, 4] ∧ (sentStamps sys.log).Pairwise sys.Before := by
  have hguard : Guarded System.step Orderly (System.init 1 0x1000005)
      [.remote 0x1000009 ⟨[], 0x2000007⟩ 3 7 [1], .remote 0x1000009 ⟨[65], 0⟩ 3 8 [2],
        .command (.name [65]) 0x2000007, .command (.accept 9 2) 0x1000005,
        .remote 0x1000009 ⟨[65], 0⟩ 3 9 [3]] := by decide
  exact ⟨_, rfl, rfl, (sending_ordered hguard rfl).2⟩

/-- In the window of the handshake the message to the name overtakes the one to the handle. -/
theorem name_overtakes_handle :
    ∃ sys, run System.step (System.init 1 0x1000005)
        [.command (.connect 9 2) 0x1000005, .remote 0x1000009 ⟨[], 0x2000007⟩ 3 7 [1],
          .remote 0x1000009 ⟨[65], 0⟩ 3 8 [2], .command (.name [65]) 0x2000007,
          .data 9 [2] fun _ => true] = some sys ∧
      .sendRemote 9 .handshake ⟨⟨0x1000009, 0x3000007, 8⟩, [2], 2⟩ ∈ sys.log ∧
      sentStamps sys.log = [2, 1] ∧ ¬ (sentStamps sys.log).Pairwise sys.Before := by
  refine ⟨_, rfl, by decide, rfl, fun hordered => ?_⟩
  have hbefore := List.rel_of_pairwise_cons hordered (List.mem_singleton_self 1)
  have hlt : 2 < 1 := hbefore _ _ 0x2000007 rfl rfl rfl rfl rfl
  exact absurd hlt (by norm_num)

end SkynetEureka.HarborService
