import SkynetEureka.HarborService.Sound

/-!
# Messages to names

A message waits for its name and is passed on, once, when the name gets a handle: to a local
service or to a harbor with a connection. For a harbor without a connection the queue of the name
is handed to the slave as it is, and the number of the handle is never filled in.
-/

namespace SkynetEureka.HarborService

open Lib Function

/-- The calls that pass on the message `stamp`. -/
def passedOn (log : List Effect) (stamp : ℕ) : List Effect :=
  log.filter fun e => e.stamp = some stamp

/-- The message is passed on to the handle, and is the one that has come in. -/
def Effect.Reaches (a : Arrival) (handle stamp : ℕ) : Effect → Prop
  | .deliver source destination type session buffer stamp' =>
    source = a.source ∧ destination &&& handleMask = handle &&& handleMask ∧ type = a.type ∧
      session = a.session ∧ buffer = a.buffer ∧ stamp' = some stamp
  | .sendRemote _ _ m =>
    m.header.source = a.source ∧ m.header.destination &&& handleMask = handle &&& handleMask ∧
      m.header.destination >>> handleRemoteShift = a.type ∧ m.header.session = a.session ∧
      m.buffer = a.buffer ∧ m.stamp = stamp
  | _ => False

/-- A name for which messages wait gets a handle of the harbor itself, or of one to which there is
a connection. -/
def NameConnected (sys : System) : Message → Prop
  | .command (.name name) handle => sys.h.unnamed name ≠ [] →
    harborOf handle = harborOf sys.h.slave ∨ (sys.h.s (harborOf handle)).fd ≠ 0
  | _ => True

instance (sys : System) : (m : Message) → Decidable (NameConnected sys m)
  | .command (.name name) handle => inferInstanceAs (Decidable (sys.h.unnamed name ≠ [] →
    harborOf handle = harborOf sys.h.slave ∨ (sys.h.s (harborOf handle)).fd ≠ 0))
  | .command (.connect ..) _ | .command (.accept ..) _ | .command .unknown _ =>
    inferInstanceAs (Decidable True)
  | .data .. | .closed .. | .connected | .warning .. | .otherSocket | .remote .. | .other .. =>
    inferInstanceAs (Decidable True)

/-- What has become of a message to the name. -/
def System.Served (sys : System) (stamp : ℕ) (a : Arrival) (name : Name) : Prop :=
  match sys.resolved name with
  | none => (sys.h.unnamed name).filter (fun q => q.stamp = stamp) = [a.msg 0 stamp] ∧
      passedOn sys.log stamp = []
  | some handle => ∃ e, passedOn sys.log stamp = [e] ∧ e.Reaches a handle stamp

structure NamesServed (sys : System) : Prop where
  served : ∀ stamp a name, sys.arrivals stamp = some a → a.destination = .name name →
    sys.Served stamp a name
  waiting : ∀ id, ∀ q ∈ (sys.h.s id).waiting,
    ∃ a handle, sys.arrivals q.stamp = some a ∧ a.destination = .handle handle

/-! ## Destinations -/

theorem mask_eq (handle : ℕ) : handle &&& handleMask = handle % 2 ^ 24 :=
  Nat.and_two_pow_sub_one_eq_mod handle 24

theorem packed_eq (type handle : ℕ) : type <<< handleRemoteShift ||| (handle &&& handleMask) =
    type * 2 ^ 24 + handle % 2 ^ 24 := by
  have hlt : handle % 2 ^ 24 < 2 ^ 24 := Nat.mod_lt _ (by norm_num)
  rw [mask_eq, handleRemoteShift, ← Nat.shiftLeft_add_eq_or_of_lt hlt, Nat.shiftLeft_eq]

theorem packed_type (type handle : ℕ) :
    (type <<< handleRemoteShift ||| (handle &&& handleMask)) >>> handleRemoteShift = type := by
  rw [packed_eq, handleRemoteShift, Nat.shiftRight_eq_div_pow]
  omega

theorem packed_number (type handle : ℕ) :
    (type <<< handleRemoteShift ||| (handle &&& handleMask)) &&& handleMask =
      handle &&& handleMask := by
  rw [packed_eq, mask_eq, mask_eq]
  omega

theorem deliver_reaches (a : Arrival) (handle stamp : ℕ) :
    ((a.msg 0 stamp).deliver handle).Reaches a handle stamp := by
  have htype : (a.type <<< handleRemoteShift ||| 0) >>> handleRemoteShift = a.type := by
    rw [Nat.or_zero, Nat.shiftLeft_shiftRight]
  exact ⟨rfl, rfl, htype, rfl, rfl, rfl⟩

theorem sendRemote_reaches (a : Arrival) (handle stamp fd : ℕ) (status : Status) :
    (Effect.sendRemote fd status ((a.msg 0 stamp).fill handle)).Reaches a handle stamp := by
  have hdest : ((a.msg 0 stamp).fill handle).header.destination =
      a.type <<< handleRemoteShift ||| (handle &&& handleMask) := by
    show a.type <<< handleRemoteShift ||| 0 ||| (handle &&& handleMask) = _
    rw [Nat.or_zero]
  refine ⟨rfl, ?_, ?_, rfl, rfl, rfl⟩
  · rw [hdest, packed_number]
  · rw [hdest, packed_type]

/-! ## A step -/

variable {h h' : Harbor} {stamp : ℕ} {m : Message} {es : List Effect}

theorem passedOn_append (es es' : List Effect) (stamp : ℕ) :
    passedOn (es ++ es') stamp = passedOn es stamp ++ passedOn es' stamp := List.filter_append ..

theorem passedOn_eq_nil {es : List Effect} {stamp : ℕ} (hes : ∀ e ∈ es, stamp ∉ e.stamp) :
    passedOn es stamp = [] := by
  apply List.filter_eq_nil_iff.mpr
  intro e he
  rw [decide_eq_true_eq]
  exact hes e he

/-- The messages of a queue that are passed on. -/
theorem passedOn_map (queue : List HarborMsg) {f : HarborMsg → Effect}
    (hf : ∀ q, (f q).stamp = some q.stamp) (stamp : ℕ) :
    passedOn (queue.map f) stamp = (queue.filter fun q => q.stamp = stamp).map f := by
  rw [passedOn, List.filter_map]
  congr 2
  funext q
  simp [hf]

theorem resolve_other {resolved : Name → Option ℕ} {name : Name}
    (hother : ∀ id, Named m id name → resolved name ≠ none) :
    resolve resolved m name = resolved name := by
  unfold resolve
  split
  · next name' handle =>
    split
    · next hok =>
      rw [update_apply]
      split
      · next heq =>
        subst heq
        exact absurd hok.2 (hother (harborOf handle) ⟨handle, rfl, hok.1, rfl⟩)
      · rfl
    · rfl
  · rfl

/-- The queue of a name that gets a handle is passed on. -/
theorem Move.passed_name {name : Name} {handle : ℕ}
    (hmove : Move h stamp (.command (.name name) handle) h' es) (hname : ValidName name)
    (hok : ∀ id, (h.s id).Ok) (hne : h.unnamed name ≠ [])
    (hconnected : harborOf handle = harborOf h.slave ∨ (h.s (harborOf handle)).fd ≠ 0) :
    ((∃ fd status, es = (h.unnamed name).map fun q => .sendRemote fd status (q.fill handle)) ∨
      es = ((h.s (harborOf handle)).waiting ++ h.unnamed name).map fun q => q.deliver handle) ∧
      ∀ id, ∀ q ∈ (h'.s id).waiting, q ∈ (h.s id).waiting := by
  obtain ⟨hqueue, _⟩ | ⟨_, _, hes, hs⟩ | ⟨hfd, hremote⟩ | ⟨_, hes, hs⟩ :=
    hmove.named hname (hok (harborOf handle))
  · rw [Harbor.unnamed, hqueue] at hne
    exact absurd rfl hne
  · refine ⟨.inr hes, fun id q hq => ?_⟩
    rw [hs, setSlave_s] at hq
    split at hq
    · exact absurd hq List.not_mem_nil
    · exact hq
  · exact absurd hconnected (by simp [hfd, hremote])
  · refine ⟨.inl ⟨_, _, hes⟩, fun id q hq => ?_⟩
    rw [hs] at hq
    exact hq

section Step

variable {sys sys' : System} {a : Arrival} {name : Name}

/-- A message to a name is not passed on while the name has no handle, or again. -/
theorem not_passed (hs : Sound sys) (hn : NamesServed sys) (hstep : sys.step m = some sys')
    (hmove : Move sys.h sys.clock m h es) (ha : sys'.arrivals stamp = some a)
    (hdest : a.destination = .name name)
    (hother : ∀ id, Named m id name → sys.resolved name ≠ none) : passedOn es stamp = [] := by
  apply passedOn_eq_nil
  intro e he hstamp
  have hhandle : ∀ {b : Arrival} {handle}, sys'.arrivals stamp = some b →
      b.destination ≠ .handle handle := by
    intro b handle hb
    rw [ha] at hb
    cases hb
    rw [hdest]
    simp
  obtain ⟨id, ⟨q, hq, rfl⟩ | ⟨⟨b, handle, harrival, hb, _⟩, rfl⟩ | ⟨name', hnamed, q, hq, rfl⟩⟩ :=
    hmove.passed he hstamp
  · obtain ⟨b, handle, hb, hbdest⟩ := hn.waiting id q hq
    exact hhandle (arrivals_step hs hstep hb) hbdest
  · exact hhandle ((arrivals_clock hstep).trans harrival) hb
  · obtain ⟨b, hb, hbdest, _⟩ := hs.unnamed name' q hq
    have heq : name' = name := by
      rw [arrivals_step hs hstep hb] at ha
      cases ha
      rw [hbdest] at hdest
      exact Destination.name.inj hdest
    subst heq
    exact hother id hnamed (resolved_none hs hq)

/-- The queue of a slave holds messages to handles. -/
theorem waiting_step (hs : Sound sys) (hn : NamesServed sys) (hok : NameConnected sys m)
    (hstep : sys.step m = some sys') : ∀ id, ∀ q ∈ (sys'.h.s id).waiting,
      ∃ a handle, sys'.arrivals q.stamp = some a ∧ a.destination = .handle handle := by
  obtain ⟨h, es, hmove, _, rfl, _⟩ := step_eq hstep
  intro id q hq
  have hold : ∀ {q}, q ∈ (sys.h.s id).waiting →
      ∃ a handle, sys'.arrivals q.stamp = some a ∧ a.destination = .handle handle := by
    intro q hq
    obtain ⟨a, handle, ha, hdest⟩ := hn.waiting id q hq
    exact ⟨a, handle, arrivals_step hs hstep ha, hdest⟩
  obtain ⟨q', hq', hstamp⟩ | ⟨⟨a, handle, ha, hdest, _⟩, hstamp⟩ |
    ⟨name, ⟨handle, rfl, hname, _⟩, q', hq', _⟩ := hmove.waiting hq
  · rw [← hstamp]
    exact hold hq'
  · rw [hstamp]
    exact ⟨a, handle, (arrivals_clock hstep).trans ha, hdest⟩
  · have hne := List.ne_nil_of_mem hq'
    exact hold ((hmove.passed_name hname hs.slave hne (hok hne)).2 id q hq)

/-- The name has just got its handle. -/
theorem served_named {handle : ℕ} (hs : Sound sys) (hn : NamesServed sys)
    (hmove : Move sys.h sys.clock (.command (.name name) handle) h es) (hname : ValidName name)
    (hok : NameConnected sys (.command (.name name) handle)) (hnone : sys.resolved name = none)
    (ha : sys.arrivals stamp = some a) (hdest : a.destination = .name name) :
    ∃ e, passedOn (sys.log ++ es) stamp = [e] ∧ e.Reaches a handle stamp := by
  have hserved := hn.served stamp a name ha hdest
  simp only [System.Served, hnone] at hserved
  have hne : sys.h.unnamed name ≠ [] := by
    intro hnil
    rw [hnil] at hserved
    exact absurd hserved.1 (by simp)
  rw [passedOn_append, hserved.2, List.nil_append]
  obtain ⟨fd, status, rfl⟩ | rfl := (hmove.passed_name hname hs.slave hne (hok hne)).1
  · refine ⟨_, ?_, sendRemote_reaches a handle stamp fd status⟩
    rw [passedOn_map _ fun _ => rfl, hserved.1]
    rfl
  · refine ⟨_, ?_, deliver_reaches a handle stamp⟩
    have hwaiting : (sys.h.s (harborOf handle)).waiting.filter (fun q => q.stamp = stamp) = [] := by
      apply List.filter_eq_nil_iff.mpr
      intro q hq hstamp
      rw [decide_eq_true_eq] at hstamp
      subst hstamp
      obtain ⟨b, handle', hb, hbdest⟩ := hn.waiting _ q hq
      rw [ha] at hb
      cases hb
      rw [hdest] at hbdest
      exact absurd hbdest (by simp)
    rw [passedOn_map _ fun _ => rfl, List.filter_append, hwaiting, hserved.1]
    rfl

/-- The message has just come in. -/
theorem served_arrival (hs : Sound sys) (hn : NamesServed sys) (hstep : sys.step m = some sys')
    (ha : arrival sys.h m = some a) (hdest : a.destination = .name name) :
    sys'.Served sys.clock a name := by
  obtain ⟨h, es, hmove, _, rfl, hlog, _, _, hresolved⟩ := step_eq hstep
  have hlt : ∀ {id stamp}, sys.Settled id stamp → stamp ≠ sys.clock := by
    intro id stamp hsettled
    obtain ⟨b, _, hb, _⟩ := hsettled
    exact (hs.arrived stamp b hb).ne
  have hlognil : passedOn sys.log sys.clock = [] := by
    apply passedOn_eq_nil
    intro e he hstamp
    obtain ⟨id, hsettled⟩ := hs.passed e he sys.clock hstamp
    exact hlt hsettled rfl
  have hnotnamed : ∀ id, ¬ Named m id name := by
    rintro id ⟨handle, rfl, _⟩
    exact absurd ha (by simp [arrival])
  have hes : passedOn es sys.clock = [] := by
    refine not_passed hs hn hstep hmove ((arrivals_clock hstep).trans ha) hdest ?_
    intro id hnamed
    exact absurd hnamed (hnotnamed id)
  obtain ⟨hvalue, hunnamed⟩ : (sys.h.map name).value = 0 ∧
      sys'.h.unnamed name = sys.h.unnamed name ++ [a.msg 0 sys.clock] := by
    obtain ⟨⟨id, hnamed⟩, _⟩ | ⟨b, hb, _, hvalue, heq⟩ | ⟨_, hother⟩ := hmove.unnamed_cases name
    · exact absurd hnamed (hnotnamed id)
    · rw [ha] at hb
      cases hb
      exact ⟨hvalue, heq⟩
    · exact absurd hdest (hother a ha)
  have hfilter : (sys.h.unnamed name).filter (fun q => q.stamp = sys.clock) = [] := by
    apply List.filter_eq_nil_iff.mpr
    intro q hq hstamp
    rw [decide_eq_true_eq] at hstamp
    obtain ⟨b, hb, _⟩ := hs.unnamed name q hq
    exact (hs.arrived _ b hb).ne hstamp
  have hnone : sys'.resolved name = none := by
    rw [hresolved, resolve_other fun id hnamed => absurd hnamed (hnotnamed id)]
    by_contra hresolved
    exact ((hs.node name).resolved hresolved).1 hvalue
  simp only [System.Served, hnone, hunnamed, List.filter_append, hfilter, hlog, passedOn_append,
    hlognil, hes]
  simp [Arrival.msg]

/-- The message has come in before, and its name does not get its handle now. -/
theorem served_other (hs : Sound sys) (hn : NamesServed sys) (hstep : sys.step m = some sys')
    (ha : sys.arrivals stamp = some a) (hdest : a.destination = .name name)
    (hother : ∀ id, Named m id name → sys.resolved name ≠ none) : sys'.Served stamp a name := by
  obtain ⟨h, es, hmove, _, rfl, hlog, _, _, hresolved⟩ := step_eq hstep
  have hes : passedOn es stamp = [] :=
    not_passed hs hn hstep hmove (arrivals_step hs hstep ha) hdest hother
  have hserved := hn.served stamp a name ha hdest
  have hsame : sys'.resolved name = sys.resolved name := by
    rw [hresolved, resolve_other hother]
  unfold System.Served at *
  rw [hsame, hlog, passedOn_append, hes, List.append_nil]
  cases hname : sys.resolved name with
  | some handle =>
    rw [hname] at hserved
    exact hserved
  | none =>
    rw [hname] at hserved
    refine ⟨?_, hserved.2⟩
    obtain ⟨⟨id, hnamed⟩, _⟩ | ⟨b, _, _, _, heq⟩ | ⟨heq, _⟩ := hmove.unnamed_cases name
    · exact absurd hname (hother id hnamed)
    · have hne : sys.clock ≠ stamp := (hs.arrived stamp a ha).ne'
      rw [heq, List.filter_append, hserved.1]
      simp [Arrival.msg, hne]
    · rw [heq]
      exact hserved.1

/-- Every guarded step serves the names. -/
theorem served_step (hs : Sound sys) (hn : NamesServed sys) (hok : NameConnected sys m)
    (hstep : sys.step m = some sys') : NamesServed sys' := by
  refine ⟨?_, waiting_step hs hn hok hstep⟩
  intro stamp a name ha hdest
  obtain ⟨h, es, hmove, _, rfl, hlog, _, harrivals, hresolved⟩ := step_eq hstep
  by_cases hclock : stamp = sys.clock
  · subst hclock
    exact served_arrival hs hn hstep ((arrivals_clock hstep).symm.trans ha) hdest
  · rw [harrivals, update_of_ne hclock] at ha
    by_cases hnow : (∃ id, Named m id name) ∧ sys.resolved name = none
    · obtain ⟨⟨id, handle, rfl, hname, _⟩, hnone⟩ := hnow
      have hhandle : sys'.resolved name = some handle := by
        rw [hresolved, resolve_name _ hname, if_pos ⟨rfl, hnone⟩]
      unfold System.Served
      rw [hhandle, hlog]
      exact served_named hs hn hmove hname hok hnone ha hdest
    · apply served_other hs hn hstep ha hdest
      intro id hnamed hnone
      exact hnow ⟨⟨id, hnamed⟩, hnone⟩

end Step

theorem served_init (id slave : ℕ) : NamesServed (System.init id slave) where
  served := fun _ _ _ ha => absurd ha (by simp [System.init])
  waiting := fun _ _ hq => absurd hq List.not_mem_nil

/-- When no name for which messages wait gets a handle of another harbor without a connection, each
message to a name waits as long as the name has no handle, and is then passed on once, to this
handle and as it has come in. -/
theorem messages_reach_name {id slave : ℕ} {ms : List Message} {sys : System}
    (hguard : Guarded System.step NameConnected (System.init id slave) ms)
    (hrun : run System.step (System.init id slave) ms = some sys) {stamp : ℕ} {a : Arrival}
    {name : Name} (ha : sys.arrivals stamp = some a) (hdest : a.destination = .name name) :
    (sys.resolved name = none → a.msg 0 stamp ∈ sys.h.unnamed name ∧
      passedOn sys.log stamp = []) ∧
    ∀ handle, sys.resolved name = some handle →
      ∃ e, passedOn sys.log stamp = [e] ∧ e.Reaches a handle stamp := by
  have hinv : Sound sys ∧ NamesServed sys :=
    @run_invariant _ _ System.step NameConnected (System.init id slave) sys ms
      (fun sys => Sound sys ∧ NamesServed sys)
      (fun _ _ _ hinv hok hstep => ⟨sound_step hinv.1 hstep, served_step hinv.1 hinv.2 hok hstep⟩)
      ⟨sound_init id slave, served_init id slave⟩ hguard hrun
  have hserved := hinv.2.served stamp a name ha hdest
  unfold System.Served at hserved
  refine ⟨fun hnone => ?_, fun handle hhandle => ?_⟩
  · rw [hnone] at hserved
    refine ⟨?_, hserved.2⟩
    have hmem : a.msg 0 stamp ∈ (sys.h.unnamed name).filter fun q => q.stamp = stamp := by
      rw [hserved.1]
      exact List.mem_singleton_self _
    exact List.mem_of_mem_filter hmem
  · rw [hhandle] at hserved
    exact hserved

/-- The name "A" gets a handle of harbor 2 after a message to it and the connection. -/
theorem messages_reach_name_waited :
    ∃ sys, run System.step (System.init 1 0x1000005)
        [.remote 0x1000009 ⟨[65], 0⟩ 3 7 [1, 2], .command (.accept 9 2) 0x1000005,
          .command (.name [65]) 0x2000007] = some sys ∧
      sys.resolved [65] = some 0x2000007 ∧
      ∃ e, passedOn sys.log 0 = [e] ∧
        e.Reaches ⟨0x1000009, .name [65], 3, 7, [1, 2]⟩ 0x2000007 0 := by
  refine ⟨_, rfl, rfl, ?_⟩
  have hguard : Guarded System.step NameConnected (System.init 1 0x1000005)
      [.remote 0x1000009 ⟨[65], 0⟩ 3 7 [1, 2], .command (.accept 9 2) 0x1000005,
        .command (.name [65]) 0x2000007] := by decide
  exact (messages_reach_name hguard rfl rfl rfl).2 _ rfl

/-- When the name "A" gets its handle before the connection, its queue becomes that of the slave,
and the message leaves for the number 0. -/
theorem name_queue_adopted :
    ∃ sys, run System.step (System.init 1 0x1000005)
        [.remote 0x1000009 ⟨[65], 0⟩ 3 7 [1, 2], .command (.name [65]) 0x2000007,
          .command (.accept 9 2) 0x1000005] = some sys ∧
      sys.resolved [65] = some 0x2000007 ∧
      passedOn sys.log 0 =
        [.sendRemote 9 .header ⟨⟨0x1000009, 0x3000000, 7⟩, [1, 2], 0⟩] ∧
      ∀ e ∈ passedOn sys.log 0, ¬ e.Reaches ⟨0x1000009, .name [65], 3, 7, [1, 2]⟩ 0x2000007 0 := by
  refine ⟨_, rfl, rfl, rfl, ?_⟩
  intro e he hreaches
  cases List.mem_singleton.mp he
  exact absurd hreaches.2.1 (by decide)

end SkynetEureka.HarborService
