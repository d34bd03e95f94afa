import SkynetEureka.HarborMaster.Network

/-!
# Agreement on the names

What a slave knows is recorded by the master, or its registration is under way to the master; what
is under way to a slave was sent by the master, and what the master has sent is recorded. The
master keeps the first address of a name but announces the one that it has just read, so this holds
as long as no name is registered with a second address.
-/

namespace SkynetEureka.HarborMaster

open Lib Function

/-- The master reads no registration of a name that is recorded with another address, and no slave
registers a name for which `pack_package` fails. -/
def Agreeing (net : Network) : Action → Prop
  | .masterReads fd => ∀ c ∈ net.connection fd, ∀ p ∈ c.up.head?, net.master.Consistent p
  | .register fd name handle => ∀ c ∈ net.connection fd, c.alive = true →
    c.slave.globalname.lookup name = none →
      (packPackage Request.values (.register name handle)).isSome
  | _ => True

instance (net : Network) : (a : Action) → Decidable (Agreeing net a)
  | .masterReads fd => inferInstanceAs
      (Decidable (∀ c ∈ net.connection fd, ∀ p ∈ c.up.head?, net.master.Consistent p))
  | .register fd name handle => inferInstanceAs (Decidable (∀ c ∈ net.connection fd,
      c.alive = true → c.slave.globalname.lookup name = none →
        (packPackage Request.values (.register name handle)).isSome))
  | .connect .. | .masterLoses _ | .slaveReads _ | .slaveLoses _ | .ready _ | .queryName ..
  | .harborQuery .. => inferInstanceAs (Decidable True)

/-- What a connected slave knows is recorded, or on its way. -/
def Connection.Knows (c : Connection) (m : Master) : Prop :=
  c.Connected → ∀ name address, c.slave.globalname.lookup name = some address →
    m.globalName name = some address ∨ .register name address ∈ c.up

structure Agreement (net : Network) : Prop where
  knows : ∀ fd, ∀ c ∈ net.connection fd, c.Knows net.master
  down : ∀ fd, ∀ c ∈ net.connection fd, ∀ p ∈ c.down, (fd, p) ∈ net.sent
  sent : net.master.Announces net.sent

variable {net net' : Network} {m : Master} {written : List (ℕ × Report)} {fd : ℕ} {c : Connection}

/-! ## Parts of a step -/

theorem Connection.Knows.keeps (h : c.Knows m) {m' : Master} (hkeeps : m.Keeps m') :
    c.Knows m' := by
  intro hconnected name address hname
  exact (h hconnected name address hname).imp_left (hkeeps name address)

/-- One connection is changed. -/
theorem agreement_set (hinv : Agreement net) (hknows : c.Knows net.master)
    (hdown : ∀ p ∈ c.down, (fd, p) ∈ net.sent) : Agreement (net.set fd c) := by
  have hcases : ∀ {fd' c'}, c' ∈ (net.set fd c).connection fd' →
      fd' = fd ∧ c' = c ∨ c' ∈ net.connection fd' := by
    intro fd' c' hc'
    rw [Option.mem_def, Network.set_connection] at hc'
    split at hc'
    · next heq => exact .inl ⟨heq, (Option.some.inj hc').symm⟩
    · exact .inr hc'
  refine ⟨fun fd' c' hc' => ?_, fun fd' c' hc' => ?_, hinv.sent⟩
  · obtain ⟨rfl, rfl⟩ | hold := hcases hc'
    · exact hknows
    · exact hinv.knows fd' c' hold
  · obtain ⟨rfl, rfl⟩ | hold := hcases hc'
    · exact hdown
    · exact hinv.down fd' c' hold

/-- The master has recorded more. -/
theorem agreement_keeps (hinv : Agreement net) (hkeeps : net.master.Keeps m) :
    Agreement { net with master := m } where
  knows := fun fd c hc => (hinv.knows fd c hc).keeps hkeeps
  down := hinv.down
  sent := fun fd name address hmem => hkeeps name address (hinv.sent fd name address hmem)

theorem receive_knows (hknows : c.Knows m) : (c.receive fd written).Knows m := by
  unfold Connection.receive
  split
  · exact hknows
  · exact hknows

theorem mem_receive_down {p : Report} (hp : p ∈ (c.receive fd written).down) :
    p ∈ c.down ∨ (fd, p) ∈ written := by
  unfold Connection.receive at hp
  split at hp
  · exact .inl hp
  · obtain hp | hp := List.mem_append.mp hp
    · exact .inl hp
    · obtain ⟨⟨fd', p'⟩, hw, rfl⟩ := List.mem_map.mp hp
      obtain ⟨hw, hfd⟩ := List.mem_filter.mp hw
      rw [decide_eq_true_eq] at hfd
      rw [← hfd]
      exact .inr hw

/-- The master has written what it has recorded. -/
theorem agreement_write (hinv : Agreement net) (hkeeps : net.master.Keeps m)
    (hannounces : m.Announces written) : Agreement (net.write m written) := by
  refine ⟨fun fd c hc => ?_, fun fd c hc p hp => ?_, fun fd name address hmem => ?_⟩
  · obtain ⟨c', hc', rfl⟩ := Option.map_eq_some_iff.mp hc
    exact receive_knows ((hinv.knows fd c' hc').keeps hkeeps)
  · obtain ⟨c', hc', rfl⟩ := Option.map_eq_some_iff.mp hc
    obtain hold | hnew := mem_receive_down hp
    · exact List.mem_append_left _ (hinv.down fd c' hc' p hold)
    · exact List.mem_append_right _ hnew
  · obtain hold | hnew := List.mem_append.mp hmem
    · exact hkeeps name address (hinv.sent fd name address hold)
    · exact hannounces fd name address hnew

theorem not_connected_closed (c : Connection) : ¬ { c with reader := .closed }.Connected :=
  fun hconnected => hconnected.2 rfl

theorem agreement_close (hinv : Agreement net) (hdown : ∀ p ∈ c.down, (fd, p) ∈ net.sent) :
    Agreement (net.close fd c) := by
  have hset : Agreement (net.set fd { c with reader := .closed }) :=
    agreement_set hinv (fun hconnected => absurd hconnected (not_connected_closed c)) hdown
  unfold Network.close
  split
  · next slaveId _ =>
    exact agreement_write hset (Master.Keeps.refl net.master)
      (slaveDown_announces net.master slaveId)
  · exact hset

theorem agreement_log (hinv : Agreement net) (log : List (ℕ × Output)) :
    Agreement { net with log := log } := ⟨hinv.knows, hinv.down, hinv.sent⟩

/-! ## Every step -/

/-- A package is read, and a registration is recorded by it. -/
theorem Connection.Knows.read {c' : Connection} {p : Request} (hknows : c.Knows m) {m' : Master}
    (hkeeps : m.Keeps m') (hconnected : c'.Connected → c.Connected) (hslave : c'.slave = c.slave)
    (hup : c.up = p :: c'.up)
    (hrecorded : ∀ name address, p = .register name address →
      m'.globalName name = some address) : c'.Knows m' := by
  intro hc' name address hname
  rw [hslave] at hname
  obtain hold | hmem := hknows (hconnected hc') name address hname
  · exact .inl (hkeeps name address hold)
  · rw [hup] at hmem
    obtain heq | hmem := List.mem_cons.mp hmem
    · exact .inl (hrecorded name address heq.symm)
    · exact .inr hmem

theorem agreement_masterReads {p : Request} {up : List Request} (hinv : Agreement net)
    (hc : c ∈ net.connection fd) (hup : c.up = p :: up) (hopen : c.reader ≠ .closed)
    (hok : net.master.Consistent p) :
    Agreement (net.masterReads fd { c with up := up } p) := by
  have hdown := hinv.down fd c hc
  have hknows := hinv.knows fd c hc
  unfold Network.masterReads
  split
  · split
    · next m slaveId written hhandshake =>
      have hkeeps : net.master.Keeps m := by
        rw [Master.Keeps, handshake_keeps hhandshake]
        exact fun _ _ hname => hname
      have hnew : { c with up := up, reader := .monitorSlave slaveId }.Knows net.master := by
        refine hknows.read (Master.Keeps.refl _) (fun hconnected => ⟨hconnected.1, hopen⟩) rfl
          hup ?_
        intro name address heq
        rw [heq] at hhandshake
        exact absurd hhandshake (by simp [handshake])
      exact agreement_write (agreement_set hinv hnew hdown) hkeeps
        (handshake_announces hhandshake)
    · exact agreement_close hinv hdown
  · have hkeeps : net.master.Keeps (dispatchSlave net.master fd p).1 := dispatchSlave_keeps
    have hmaster := agreement_keeps hinv hkeeps
    have hannounces := @dispatchSlave_announces net.master fd p
    have hnew : { c with up := up }.Knows (dispatchSlave net.master fd p).1 := by
      refine hknows.read hkeeps (fun hconnected => hconnected) rfl hup ?_
      intro name address heq
      rw [heq] at hok ⊢
      exact dispatchSlave_register hok
    generalize dispatchSlave net.master fd p = result at *
    obtain ⟨m, written⟩ := result
    cases written with
    | some written =>
      show Agreement ((Network.set { net with master := m } fd { c with up := up }).write m written)
      exact agreement_write (agreement_set hmaster hnew hdown) (Master.Keeps.refl m)
        (hannounces hok rfl)
    | none => exact agreement_close hmaster hdown
  · exact hinv

theorem agreement_slaveReads {p : Report} {down : List Report} (hinv : Agreement net)
    (hc : c ∈ net.connection fd) (hdown : c.down = p :: down) :
    Agreement (net.slaveReads fd { c with down := down } p) := by
  have hsent := hinv.down fd c hc
  rw [hdown] at hsent
  have hrest : ∀ q ∈ down, (fd, q) ∈ net.sent := fun q hq => hsent q (List.mem_cons_of_mem _ hq)
  have hknows := hinv.knows fd c hc
  unfold Network.slaveReads
  split
  · apply agreement_log (agreement_set hinv ?_ hrest)
    intro hconnected name address hname
    by_cases hannounced : ∃ name' address', p = .name name' address'
    · obtain ⟨name', address', rfl⟩ := hannounced
      have hrecorded := hinv.sent fd name' address' (hsent _ List.mem_cons_self)
      rw [monitorMaster_name] at hname
      by_cases heq : name = name'
      · rw [heq, AList.lookup_insert] at hname
        rw [heq, ← Option.some.inj hname]
        exact .inl hrecorded
      · rw [AList.lookup_insert_ne heq] at hname
        exact hknows hconnected name address hname
    · push Not at hannounced
      rw [monitorMaster_other hannounced] at hname
      exact hknows hconnected name address hname
  · split
    · exact agreement_set hinv hknows hrest
    · exact agreement_set hinv (fun hconnected => absurd hconnected.1 (by simp)) hrest

/-- A slave serves one of its services; what it knows is known, or is written. -/
theorem agreement_serve {result : Slave × List Request × List Output} (hinv : Agreement net)
    (hc : c ∈ net.connection fd)
    (hresult : c.alive = true → ∀ name address, result.1.globalname.lookup name = some address →
      c.slave.globalname.lookup name = some address ∨ .register name address ∈ result.2.1) :
    Agreement (net.serve fd c result) := by
  have hknows : { c with
      slave := result.1
      up := if c.alive then c.up ++ result.2.1 else c.up }.Knows net.master := by
    intro hconnected name address hname
    have halive : c.alive = true := hconnected.1
    show _ ∨ _ ∈ if c.alive then c.up ++ result.2.1 else c.up
    rw [if_pos halive]
    obtain hold | hwritten := hresult halive name address hname
    · exact (hinv.knows fd c hc hconnected name address hold).imp_right (List.mem_append_left _)
    · exact .inr (List.mem_append_right _ hwritten)
  exact agreement_log (agreement_set hinv hknows (hinv.down fd c hc)) _

/-- Every agreeing step keeps the agreement. -/
theorem agreement_step {a : Action} (hinv : Agreement net) (hok : Agreeing net a)
    (hstep : net.step a = some net') : Agreement net' := by
  cases a with
  | connect fd slaveId slaveAddr =>
    simp only [Network.step] at hstep
    split at hstep
    · exact absurd hstep (by simp)
    · obtain ⟨message, _, rfl⟩ := Option.map_eq_some_iff.mp hstep
      apply agreement_set hinv
      · intro _ name address hname
        exact absurd hname (by simp [Slave.init])
      · exact fun p hp => absurd hp List.not_mem_nil
  | masterReads fd =>
    obtain ⟨c, hc, hstep⟩ := Option.bind_eq_some_iff.mp hstep
    split at hstep
    · exact absurd hstep (by simp)
    · next p up hup =>
      split at hstep
      · exact absurd hstep (by simp)
      · next hopen =>
        cases hstep
        exact agreement_masterReads hinv hc hup hopen (hok c hc p (by simp [hup]))
  | masterLoses fd =>
    obtain ⟨c, hc, hstep⟩ := Option.bind_eq_some_iff.mp hstep
    split at hstep
    · exact absurd hstep (by simp)
    · cases hstep
      exact agreement_close hinv (hinv.down fd c hc)
  | slaveReads fd =>
    obtain ⟨c, hc, hstep⟩ := Option.bind_eq_some_iff.mp hstep
    split at hstep
    · exact absurd hstep (by simp)
    · next p down hdown =>
      split at hstep
      · cases hstep
        exact agreement_slaveReads hinv hc hdown
      · exact absurd hstep (by simp)
  | slaveLoses fd =>
    obtain ⟨c, hc, rfl⟩ := Option.map_eq_some_iff.mp hstep
    apply agreement_set hinv
    · exact fun hconnected => absurd hconnected.1 (by simp)
    · exact hinv.down fd c hc
  | ready fd =>
    obtain ⟨c, hc, hstep⟩ := Option.bind_eq_some_iff.mp hstep
    split at hstep
    · cases hstep
      exact agreement_serve hinv hc fun _ _ _ hname => .inl hname
    · exact absurd hstep (by simp)
  | register fd name handle =>
    obtain ⟨c, hc, rfl⟩ := Option.map_eq_some_iff.mp hstep
    apply agreement_serve hinv hc
    intro halive name' address hname
    exact register_known (hok c hc halive) hname
  | queryName fd session name =>
    obtain ⟨c, hc, rfl⟩ := Option.map_eq_some_iff.mp hstep
    apply agreement_serve hinv hc
    intro _ name' address hname
    rw [queryName_globalname] at hname
    exact .inl hname
  | harborQuery fd name =>
    obtain ⟨c, hc, rfl⟩ := Option.map_eq_some_iff.mp hstep
    apply agreement_serve hinv hc
    intro _ name' address hname
    rw [monitorHarbor_globalname] at hname
    exact .inl hname

theorem agreement_init : Agreement Network.init where
  knows := fun _ _ hc => absurd hc (Option.not_mem_none _)
  down := fun _ _ hc => absurd hc (Option.not_mem_none _)
  sent := fun _ _ _ hmem => absurd hmem List.not_mem_nil

/-- As long as no name is registered with a second address, every 'N' of the master carries the
address that it has recorded, and a connected slave from which nothing is under way has the
addresses of the master. -/
theorem names_agree {as : List Action}
    (hguard : Guarded Network.step Agreeing Network.init as)
    (hrun : run Network.step Network.init as = some net) :
    (∀ fd name address, (fd, .name name address) ∈ net.sent →
      net.master.globalName name = some address) ∧
    ∀ fd c, net.connection fd = some c → c.Connected → c.up = [] →
      ∀ name address, c.slave.globalname.lookup name = some address →
        net.master.globalName name = some address := by
  have hinv : Agreement net :=
    run_invariant (fun _ _ _ hinv hok hstep => agreement_step hinv hok hstep) agreement_init
      hguard hrun
  refine ⟨hinv.sent, fun fd c hc hconnected hup name address hname => ?_⟩
  obtain hrecorded | hmem := hinv.knows fd c hc hconnected name address hname
  · exact hrecorded
  · rw [hup] at hmem
    exact absurd hmem List.not_mem_nil

/-- A slave registers the name "A" while a second one joins. -/
theorem names_agree_joined :
    ∃ net, run Network.step Network.init
        [.connect 3 1 [49], .masterReads 3, .slaveReads 3, .ready 3, .register 3 [65] 0x1000009,
          .connect 4 2 [50], .masterReads 4, .masterReads 3, .slaveReads 4, .slaveReads 4] =
        some net ∧
      net.master.globalName [65] = some 0x1000009 ∧
      ∀ fd c, net.connection fd = some c → c.Connected → c.up = [] →
        ∀ name address, c.slave.globalname.lookup name = some address →
          net.master.globalName name = some address := by
  have hguard : Guarded Network.step Agreeing Network.init
      [.connect 3 1 [49], .masterReads 3, .slaveReads 3, .ready 3, .register 3 [65] 0x1000009,
        .connect 4 2 [50], .masterReads 4, .masterReads 3, .slaveReads 4, .slaveReads 4] := by
    decide +kernel
  obtain ⟨net, hrun, hname⟩ : ∃ net ∈ run Network.step Network.init
      [.connect 3 1 [49], .masterReads 3, .slaveReads 3, .ready 3, .register 3 [65] 0x1000009,
        .connect 4 2 [50], .masterReads 4, .masterReads 3, .slaveReads 4, .slaveReads 4],
      net.master.globalName [65] = some 0x1000009 := by
    decide +kernel
  exact ⟨net, hrun, hname, (names_agree hguard hrun).2⟩

/-- Two slaves register the name "A" before they hear of each other: the master keeps the address
of the first, announces that of the second, and both slaves end up with the second. -/
theorem second_address_announced :
    ∃ net ∈ run Network.step Network.init
        [.connect 3 1 [49], .masterReads 3, .slaveReads 3, .connect 4 2 [50], .masterReads 4,
          .slaveReads 3, .slaveReads 4, .register 3 [65] 0x1000009, .register 4 [65] 0x2000009,
          .masterReads 3, .masterReads 4, .slaveReads 3, .slaveReads 3, .slaveReads 4,
          .slaveReads 4],
      net.master.globalName [65] = some 0x1000009 ∧ (3, .name [65] 0x2000009) ∈ net.sent ∧
      (∃ c ∈ net.connection 3, c.Connected ∧ c.up = [] ∧ c.down = [] ∧
        c.slave.globalname.lookup [65] = some 0x2000009) ∧
      ∃ c ∈ net.connection 4, c.Connected ∧ c.up = [] ∧ c.down = [] ∧
        c.slave.globalname.lookup [65] = some 0x2000009 := by
  decide +kernel

end SkynetEureka.HarborMaster
