import SkynetEureka.Clusterd.Channels

/-!
# Channels follow the configuration

A channel that is kept leads to the address that its node has now, each request of a channel gets an
answer, and a node has one sender (`channels_follow`). Two things are in the way: `loadconfig` does
not see a channel that is being opened, so that a new address is lost; and when the new service
fails, `connecting` keeps its entry, and who waits there waits for ever.
-/

namespace SkynetEureka.Clusterd

open Lib Function

/-- When "changenode" has succeeded, the node still has the address that has been read. -/
def Stage.Current (nodeAddress : Option Address) : Stage → Prop
  | .changed address _ true => nodeAddress = some (.host address)
  | _ => True

instance (nodeAddress : Option Address) : (stage : Stage) → Decidable (stage.Current nodeAddress)
  | .changed address _ true => inferInstanceAs (Decidable (nodeAddress = some (.host address)))
  | .changed _ _ false | .namequery _ | .launching _ | .changing _ _ | .broken =>
    inferInstanceAs (Decidable True)

/-- A new service is there, and no address has changed under `open_channel` at its end. -/
def State.Settled (s : State) : Action → Prop
  | .launched _ ok => ok = true
  | .changed key => ∀ ct ∈ s.connecting key, ct.stage.Current (s.nodeAddress key)
  | _ => True

instance (s : State) : (a : Action) → Decidable (s.Settled a)
  | .launched _ ok => inferInstanceAs (Decidable (ok = true))
  | .changed key =>
    inferInstanceAs (Decidable (∀ ct ∈ s.connecting key, ct.stage.Current (s.nodeAddress key)))
  | .sender _ | .reload _ | .resume _ | .changenode _ _ | .wakeup _ _ =>
    inferInstanceAs (Decidable True)

/-- The requests that wait for the channel. -/
def Opening.members (ct : Opening) : List ℕ := ct.opener :: ct.waiters

/-- What holds of the sender where `open_channel` is. -/
def State.Opens (s : State) (key : Name) : Stage → Prop
  | .namequery _ => True
  | .launching _ => s.nodeSender key = none
  | .changing _ c => s.nodeSender key = some c
  | .changed address c succ => s.nodeSender key = some c ∧
    (succ = true → ∃ sd : Sender, s.senders[c]? = some sd ∧ sd.changed = some address)
  | .broken => False

/-- How often the request waits for the channel to its node. -/
def State.pending (s : State) (key : Name) (r : ℕ) : ℕ :=
  (s.connecting key).elim 0 fun ct => ct.members.count r

/-- A channel leads to the address of its node, a sender is the one of its node, and a request is in
one place. -/
structure Followed (s : State) : Prop where
  current : ∀ key c, s.nodeChannel key = some c → s.connecting key = none ∧
    s.nodeSender key = some c ∧ ∃ sd address, s.senders[c]? = some sd ∧ sd.changed = some address ∧
      s.nodeAddress key = some (.host address)
  sender : ∀ key c, s.nodeSender key = some c → ∃ sd, s.senders[c]? = some sd ∧ sd.node = key
  unique : ∀ (c : ℕ) sd, s.senders[c]? = some sd → s.nodeSender sd.node = some c
  stage : ∀ key ct, s.connecting key = some ct → s.Opens key ct.stage
  members : ∀ key ct, s.connecting key = some ct → ∀ r ∈ ct.members, s.requests[r]? = some key
  right : ∀ e, e ∈ s.woken ∨ e ∈ s.answers →
    ∃ key, s.requests[e.1]? = some key ∧ ∀ c ∈ e.2, s.nodeSender key = some c
  once : ∀ (r : ℕ) key, s.requests[r]? = some key →
    s.answers.countP (·.1 = r) + s.woken.countP (·.1 = r) + s.pending key r = 1

section

variable {s : State} {key : Name} {ct : Opening}

/-! ## Openings -/

/-- `open_channel` goes on to another stage. -/
theorem Followed.setStage (h : Followed s) (hct : s.connecting key = some ct) {stage : Stage}
    (hstage : s.Opens key stage) : Followed (s.setOpening key { ct with stage := stage }) := by
  have hother : ∀ key', s.connecting key' = none →
      (s.setOpening key { ct with stage := stage }).connecting key' = none := by
    intro key' hnone
    have hne : key' ≠ key := by
      rintro rfl
      cases hct.symm.trans hnone
    exact (update_of_ne hne _ _).trans hnone
  have hpending : ∀ key' r, (s.setOpening key { ct with stage := stage }).pending key' r =
      s.pending key' r := by
    intro key' r
    unfold State.pending
    show (update s.connecting key _ key').elim 0 _ = _
    by_cases heq : key' = key
    · rw [heq, update_self, hct]
      rfl
    · rw [update_of_ne heq]
  have hold : ∀ key' ct', (s.setOpening key { ct with stage := stage }).connecting key' = some ct' →
      key' = key ∧ ct' = { ct with stage := stage } ∨ s.connecting key' = some ct' := by
    intro key' ct' hct'
    change update s.connecting key _ key' = some ct' at hct'
    by_cases heq : key' = key
    · rw [heq, update_self] at hct'
      exact Or.inl ⟨heq, (Option.some.inj hct').symm⟩
    · rw [update_of_ne heq] at hct'
      exact Or.inr hct'
  refine { h with current := ?_, stage := ?_, members := ?_, once := ?_ }
  · intro key' c hc
    obtain ⟨hnone, hrest⟩ := h.current key' c hc
    exact ⟨hother key' hnone, hrest⟩
  · intro key' ct' hct'
    rcases hold key' ct' hct' with ⟨rfl, rfl⟩ | hct'
    · exact hstage
    · exact h.stage key' ct' hct'
  · intro key' ct' hct'
    rcases hold key' ct' hct' with ⟨rfl, rfl⟩ | hct'
    · exact h.members key' ct hct
    · exact h.members key' ct' hct'
  · intro r key' hr
    rw [hpending]
    exact h.once r key' hr

/-- Openings may wake up. -/
theorem Followed.wakeup (h : Followed s) {connecting : Name → Option Opening}
    (hwakeup : ∀ key, connecting key = s.connecting key ∨
      connecting key = (s.connecting key).map Opening.wakeup) :
    Followed { s with connecting := connecting } := by
  have hct : ∀ key ct, connecting key = some ct → ∃ ct', s.connecting key = some ct' ∧
      ct.members = ct'.members ∧ (s.Opens key ct'.stage → s.Opens key ct.stage) := by
    intro key ct hct
    rcases hwakeup key with heq | heq
    · exact ⟨ct, heq.symm.trans hct, rfl, id⟩
    · obtain ⟨ct', hct', rfl⟩ := Option.map_eq_some_iff.mp (heq.symm.trans hct)
      refine ⟨ct', hct', ?_⟩
      unfold Opening.wakeup
      split
      · exact ⟨rfl, fun _ => trivial⟩
      · exact ⟨rfl, id⟩
  refine { h with current := ?_, stage := ?_, members := ?_, once := ?_ }
  · intro key c hc
    obtain ⟨hnone, hrest⟩ := h.current key c hc
    refine ⟨?_, hrest⟩
    rcases hwakeup key with heq | heq
    · exact heq.trans hnone
    · rw [hnone] at heq
      exact heq
  · intro key ct hsome
    obtain ⟨ct', hct', -, hopens⟩ := hct key ct hsome
    exact hopens (h.stage key ct' hct')
  · intro key ct hsome
    obtain ⟨ct', hct', hmembers, -⟩ := hct key ct hsome
    rw [hmembers]
    exact h.members key ct' hct'
  · intro r key hr
    have hpending : State.pending { s with connecting := connecting } key r = s.pending key r := by
      unfold State.pending
      dsimp only
      cases hsome : connecting key with
      | none =>
        rcases hwakeup key with heq | heq
        · rw [← heq, hsome]
        · rw [Option.map_eq_none_iff.mp (heq.symm.trans hsome)]
      | some ct =>
        obtain ⟨ct', hct', hmembers, -⟩ := hct key ct hsome
        rw [hct']
        show ct.members.count r = ct'.members.count r
        rw [hmembers]
    rw [hpending]
    exact h.once r key hr

theorem countP_answers (rs : List ℕ) (channel : Option ℕ) (r : ℕ) :
    (rs.map fun r => (r, channel)).countP (·.1 = r) = rs.count r := by
  rw [List.countP_map, List.count]
  exact List.countP_congr fun r' _ => by simp [beq_iff_eq]

/-- `open_channel` comes to its end. -/
theorem Followed.finish (h : Followed s) (hct : s.connecting key = some ct) {channel : Option ℕ}
    (hchannel : ∀ c ∈ channel, s.nodeSender key = some c) :
    Followed (s.finish key ct channel) := by
  have hold : ∀ key' ct', update s.connecting key none key' = some ct' →
      key' ≠ key ∧ s.connecting key' = some ct' := by
    intro key' ct' hct'
    by_cases heq : key' = key
    · rw [heq, update_self] at hct'
      cases hct'
    · rw [update_of_ne heq] at hct'
      exact ⟨heq, hct'⟩
  refine { h with current := ?_, stage := ?_, members := ?_, right := ?_, once := ?_ }
  · intro key' c hc
    obtain ⟨hnone, hrest⟩ := h.current key' c hc
    refine ⟨?_, hrest⟩
    show update s.connecting key none key' = none
    by_cases heq : key' = key
    · rw [heq, update_self]
    · rw [update_of_ne heq]
      exact hnone
  · exact fun key' ct' hct' => h.stage key' ct' (hold key' ct' hct').2
  · exact fun key' ct' hct' => h.members key' ct' (hold key' ct' hct').2
  · intro e he
    have hmember : ∀ r ∈ ct.members, ∃ key, s.requests[r]? = some key ∧
        ∀ c ∈ channel, s.nodeSender key = some c :=
      fun r hr => ⟨key, h.members key ct hct r hr, hchannel⟩
    rcases he with he | he
    · rcases List.mem_append.mp he with he | he
      · exact h.right e (Or.inl he)
      · obtain ⟨r, hr, rfl⟩ := List.mem_map.mp he
        exact hmember r (List.mem_cons_of_mem _ hr)
    · rcases List.mem_append.mp he with he | he
      · exact h.right e (Or.inr he)
      · rw [List.mem_singleton.mp he]
        exact hmember _ List.mem_cons_self
  · intro r key' hr
    have honce := h.once r key' hr
    unfold State.pending at *
    show (s.answers ++ [(ct.opener, channel)]).countP _ +
      (s.woken ++ ct.waiters.map fun r => (r, channel)).countP _ +
        (update s.connecting key none key').elim 0 _ = 1
    rw [List.countP_append, List.countP_append, countP_answers, List.countP_singleton]
    by_cases heq : key' = key
    · subst heq
      rw [hct] at honce
      change _ + _ + (ct.opener :: ct.waiters).count r = 1 at honce
      rw [List.count_cons] at honce
      rw [update_self]
      show _ + _ + _ + 0 = 1
      simp only [beq_iff_eq, decide_eq_true_eq] at honce ⊢
      omega
    · -- the requests of another node are not among those that wait
      have hnot : r ∉ ct.members := by
        intro hmem
        exact heq (Option.some.inj (hr.symm.trans (h.members key ct hct r hmem)))
      have hopener : ct.opener ≠ r := fun heq => hnot (heq ▸ List.mem_cons_self)
      rw [update_of_ne heq, if_neg (by simpa using hopener),
        List.count_eq_zero_of_not_mem fun hmem => hnot (List.mem_cons_of_mem _ hmem)]
      exact honce

/-- `open_channel` has read an address. -/
theorem Followed.connect (h : Followed s) (hct : s.connecting key = some ct)
    (address : Option Address) : Followed (s.connect key ct address) := by
  unfold State.connect
  cases address with
  | none => exact h.finish hct nofun
  | some address =>
    cases address with
    | down => exact h.finish hct nofun
    | host address =>
      dsimp only
      cases hsender : s.nodeSender key with
      | none => exact h.setStage hct hsender
      | some c => exact h.setStage hct hsender

/-! ## Requests -/

/-- A request comes in and is put in one place. -/
theorem Followed.arrive (h : Followed s) {connecting : Name → Option Opening}
    {answers : List (ℕ × Option ℕ)} (hchannel : ∀ key c, s.nodeChannel key = some c →
      connecting key = none)
    (hstage : ∀ key ct, connecting key = some ct → s.Opens key ct.stage)
    (hmembers : ∀ key' ct, connecting key' = some ct → ∀ r ∈ ct.members,
      s.requests[r]? = some key' ∨ r = s.requests.length ∧ key' = key)
    (hright : ∀ e ∈ answers, e ∈ s.answers ∨
      e.1 = s.requests.length ∧ ∀ c ∈ e.2, s.nodeSender key = some c)
    (hplace : ∀ (r : ℕ) key', (s.requests ++ [key])[r]? = some key' → answers.countP (·.1 = r) +
      (connecting key').elim 0 (fun ct => ct.members.count r) =
        s.answers.countP (·.1 = r) + s.pending key' r + if r = s.requests.length then 1 else 0) :
    Followed { s with
      connecting := connecting, requests := s.requests ++ [key], answers := answers } := by
  have hkeep : ∀ {r : ℕ} {key'}, s.requests[r]? = some key' →
      (s.requests ++ [key])[r]? = some key' := fun hr =>
    (List.getElem?_append_left (List.getElem?_eq_some_iff.mp hr).1).trans hr
  have hlast : (s.requests ++ [key])[s.requests.length]? = some key := List.getElem?_concat_length
  refine { h with current := ?_, stage := hstage, members := ?_, right := ?_, once := ?_ }
  · intro key' c hc
    exact ⟨hchannel key' c hc, (h.current key' c hc).2⟩
  · intro key' ct hct r hr
    rcases hmembers key' ct hct r hr with hr | ⟨rfl, rfl⟩
    · exact hkeep hr
    · exact hlast
  · intro e he
    have hold : e ∈ s.woken ∨ e ∈ s.answers → ∃ key', (s.requests ++ [key])[e.1]? = some key' ∧
        ∀ c ∈ e.2, s.nodeSender key' = some c := by
      intro he
      obtain ⟨key', hr, hc⟩ := h.right e he
      exact ⟨key', hkeep hr, hc⟩
    rcases he with he | he
    · exact hold (Or.inl he)
    · rcases hright e he with he | ⟨heq, hc⟩
      · exact hold (Or.inr he)
      · exact ⟨key, by rw [heq]; exact hlast, hc⟩
  · intro r key' hr
    have hsum := hplace r key' hr
    unfold State.pending at *
    show answers.countP _ + s.woken.countP _ + (connecting key').elim 0 _ = 1
    by_cases hlt : r < s.requests.length
    · have honce := h.once r key' ((List.getElem?_append_left hlt).symm.trans hr)
      unfold State.pending at honce
      rw [if_neg (by omega)] at hsum
      omega
    · have hlength := (List.getElem?_eq_some_iff.mp hr).1
      rw [List.length_append, List.length_singleton] at hlength
      obtain rfl : r = s.requests.length := by omega
      -- the number is new
      have hnone : ∀ e, e ∈ s.woken ∨ e ∈ s.answers → ¬ e.1 = s.requests.length := by
        intro e he heq
        obtain ⟨key', hr, -⟩ := h.right e he
        exact absurd (List.getElem?_eq_some_iff.mp hr).1 (by omega)
      have hwoken : s.woken.countP (·.1 = s.requests.length) = 0 :=
        List.countP_eq_zero.mpr fun e he => by simpa using hnone e (Or.inl he)
      have hanswers : s.answers.countP (·.1 = s.requests.length) = 0 :=
        List.countP_eq_zero.mpr fun e he => by simpa using hnone e (Or.inr he)
      have hpending : (s.connecting key').elim 0
          (fun ct => ct.members.count s.requests.length) = 0 := by
        cases hct : s.connecting key' with
        | none => rfl
        | some ct =>
          refine List.count_eq_zero_of_not_mem fun hmem => ?_
          exact absurd (List.getElem?_eq_some_iff.mp (h.members key' ct hct _ hmem)).1 (by omega)
      rw [if_pos rfl, hanswers, hpending] at hsum
      omega

/-- A request waits for the channel. -/
theorem Followed.enter (h : Followed s) (hchannel : s.nodeChannel key = none) {ct : Opening}
    (hstage : s.Opens key ct.stage)
    (hmembers : ∀ r ∈ ct.members, s.requests[r]? = some key ∨ r = s.requests.length)
    (hcount : ∀ r, ct.members.count r =
      s.pending key r + if r = s.requests.length then 1 else 0) :
    Followed { s with
      connecting := update s.connecting key (some ct), requests := s.requests ++ [key] } := by
  have hold : ∀ key' ct', update s.connecting key (some ct) key' = some ct' →
      key' = key ∧ ct' = ct ∨ s.connecting key' = some ct' := by
    intro key' ct' hct'
    by_cases heq : key' = key
    · rw [heq, update_self] at hct'
      exact Or.inl ⟨heq, (Option.some.inj hct').symm⟩
    · rw [update_of_ne heq] at hct'
      exact Or.inr hct'
  apply h.arrive
  · intro key' c hc
    have hne : key' ≠ key := by
      rintro rfl
      cases hchannel.symm.trans hc
    rw [update_of_ne hne]
    exact (h.current key' c hc).1
  · intro key' ct' hct'
    rcases hold key' ct' hct' with ⟨rfl, rfl⟩ | hct'
    · exact hstage
    · exact h.stage key' ct' hct'
  · intro key' ct' hct' r hr
    rcases hold key' ct' hct' with ⟨rfl, rfl⟩ | hct'
    · exact (hmembers r hr).imp_right fun heq => ⟨heq, rfl⟩
    · exact Or.inl (h.members key' ct' hct' r hr)
  · exact fun e he => Or.inl he
  · intro r key' hr
    by_cases heq : key' = key
    · subst heq
      rw [update_self]
      show _ + ct.members.count r = _
      rw [hcount, Nat.add_assoc]
    · have hne : r ≠ s.requests.length := by
        rintro rfl
        exact heq (Option.some.inj (hr.symm.trans List.getElem?_concat_length))
      rw [update_of_ne heq, if_neg hne]
      rfl

theorem connect_setOpening (ct : Opening) (address : Option Address) :
    (s.setOpening key ct).connect key ct address = s.connect key ct address := by
  unfold State.connect State.setOpening State.finish
  cases address with
  | none => simp
  | some address =>
    cases address with
    | down => simp
    | host address =>
      dsimp only
      cases s.nodeSender key
      all_goals simp

/-- `command.sender` -/
theorem Followed.request (h : Followed s) (node : Name) : Followed (s.sender node) := by
  unfold State.sender
  dsimp only
  cases hchannel : s.nodeChannel node with
  | some c =>
    apply h.arrive
    · exact fun key c hc => (h.current key c hc).1
    · exact h.stage
    · exact fun key ct hct r hr => Or.inl (h.members key ct hct r hr)
    · intro e he
      rcases List.mem_append.mp he with he | he
      · exact Or.inl he
      · rw [List.mem_singleton.mp he]
        refine Or.inr ⟨rfl, fun c' hc' => ?_⟩
        cases hc'
        exact (h.current node c hchannel).2.1
    · intro r key' hr
      unfold State.pending
      rw [List.countP_append, List.countP_singleton]
      simp only [decide_eq_true_eq, eq_comm (a := s.requests.length)]
      omega
  | none =>
    unfold State.openChannel
    dsimp only
    cases hct : s.connecting node with
    | some ct =>
      refine h.enter hchannel (h.stage node ct hct) ?_ ?_
      · intro r hr
        rcases List.mem_append.mp (show r ∈ ct.members ++ [s.requests.length] from hr) with hr | hr
        · exact Or.inl (h.members node ct hct r hr)
        · exact Or.inr (List.mem_singleton.mp hr)
      · intro r
        show (ct.members ++ [s.requests.length]).count r = _
        rw [List.count_append, List.count_singleton, State.pending, hct]
        simp only [beq_iff_eq, eq_comm (a := s.requests.length)]
        rfl
    | none =>
      have hnew : Followed (State.setOpening { s with requests := s.requests ++ [node] } node
          ⟨s.requests.length, [], .namequery false⟩) := by
        refine h.enter hchannel trivial ?_ ?_
        · exact fun r hr => Or.inr (List.mem_singleton.mp hr)
        · intro r
          show [s.requests.length].count r = _
          rw [List.count_singleton, State.pending, hct]
          simp only [beq_iff_eq, eq_comm (a := s.requests.length)]
          exact (Nat.zero_add _).symm
      dsimp only
      split_ifs
      · exact hnew
      · rw [← connect_setOpening]
        exact hnew.connect (update_self ..) _

/-! ## The configuration -/

/-- One entry of the configuration. -/
theorem Followed.loadEntry (h : Followed s) {entry : Name × Setting} {s' : State}
    (hload : s.loadEntry entry = some s') : Followed s' := by
  unfold State.loadEntry at hload
  split at hload
  · cases hload
    split_ifs
    · exact { h with }
    · exact h
  · cases hload
  · rename_i name address _
    dsimp only at hload
    -- the channel goes with the old address
    have haddress : Followed (if s.nodeAddress name = some address then s else
        { s with
          nodeAddress := update s.nodeAddress name (some address)
          nodeChannel := update s.nodeChannel name none }) := by
      split_ifs
      · exact h
      · refine { h with current := fun key c hc => ?_ }
        change update s.nodeChannel name none key = some c at hc
        have hne : key ≠ name := by
          rintro rfl
          rw [update_self] at hc
          cases hc
        rw [update_of_ne hne] at hc
        show _ ∧ _ ∧ ∃ sd address', _ ∧ _ ∧ update s.nodeAddress name _ key = _
        rw [update_of_ne hne]
        exact h.current key c hc
    revert haddress hload
    generalize (if s.nodeAddress name = some address then s else _) = t
    intro hload haddress
    cases hct : t.connecting name with
    | none =>
      rw [hct] at hload
      cases hload
      exact haddress
    | some ct =>
      rw [hct] at hload
      cases hload
      split_ifs
      · exact haddress
      · refine haddress.wakeup fun key => ?_
        by_cases heq : key = name
        · rw [heq, update_self, hct]
          exact Or.inr rfl
        · exact Or.inl (update_of_ne heq _ _)

theorem Followed.loadconfig (h : Followed s) (tmp : List (Name × Setting)) :
    Followed (s.loadconfig tmp) := by
  induction tmp generalizing s with
  | nil =>
    unfold State.loadconfig
    split_ifs
    · exact h.wakeup fun key => Or.inr rfl
    · exact h
  | cons entry tmp ih =>
    rw [State.loadconfig]
    cases hload : s.loadEntry entry with
    | none => exact h
    | some s' => exact ih (h.loadEntry hload)

/-! ## Senders -/

/-- The new service is there. -/
theorem Followed.launched (h : Followed s) (hct : s.connecting key = some ct) {address : String}
    (hstage : ct.stage = .launching address) : Followed (s.launched key ct address) := by
  have hnone : s.nodeSender key = none := by
    have hopens := h.stage key ct hct
    rw [hstage] at hopens
    exact hopens
  unfold State.launched
  dsimp only
  rw [hnone]
  -- of the other nodes nothing changes
  have hsender : ∀ {key' c}, s.nodeSender key' = some c →
      update s.nodeSender key (some s.senders.length) key' = some c := by
    intro key' c hc
    have hne : key' ≠ key := by
      rintro rfl
      cases hnone.symm.trans hc
    rw [update_of_ne hne]
    exact hc
  have hget : ∀ {c : ℕ} {sd}, s.senders[c]? = some sd →
      (s.senders ++ [(⟨key, none, none, false⟩ : Sender)])[c]? = some sd := fun hsd =>
    (List.getElem?_append_left (List.getElem?_eq_some_iff.mp hsd).1).trans hsd
  have hnew : Followed { s with
      senders := s.senders ++ [⟨key, none, none, false⟩]
      nodeSender := update s.nodeSender key (some s.senders.length)
      connecting := update s.connecting key (some { ct with stage := .namequery false }) } := by
    have hstaged : Followed (s.setOpening key { ct with stage := .namequery false }) :=
      h.setStage hct trivial
    refine { hstaged with current := ?_, sender := ?_, unique := ?_, stage := ?_, right := ?_ }
    · intro key' c hc
      obtain ⟨hconnecting, hc', sd, address', hsd, hrest⟩ := hstaged.current key' c hc
      exact ⟨hconnecting, hsender hc', sd, address', hget hsd, hrest⟩
    · intro key' c hc
      change update s.nodeSender key _ key' = some c at hc
      by_cases heq : key' = key
      · rw [heq, update_self] at hc
        cases hc
        exact ⟨_, List.getElem?_concat_length, heq.symm⟩
      · rw [update_of_ne heq] at hc
        obtain ⟨sd, hsd, hnode⟩ := h.sender key' c hc
        exact ⟨sd, hget hsd, hnode⟩
    · intro c sd hsd
      change (s.senders ++ _)[c]? = some sd at hsd
      by_cases hlt : c < s.senders.length
      · rw [List.getElem?_append_left hlt] at hsd
        exact hsender (h.unique c sd hsd)
      · have hlength := (List.getElem?_eq_some_iff.mp hsd).1
        rw [List.length_append, List.length_singleton] at hlength
        obtain rfl : c = s.senders.length := by omega
        cases List.getElem?_concat_length.symm.trans hsd
        exact update_self ..
    · intro key' ct' hct'
      change update s.connecting key _ key' = some ct' at hct'
      by_cases heq : key' = key
      · rw [heq, update_self] at hct'
        cases hct'
        trivial
      · rw [update_of_ne heq] at hct'
        have hopens := h.stage key' ct' hct'
        cases hstage' : ct'.stage with
        | namequery woken => trivial
        | launching address' =>
          rw [hstage'] at hopens
          exact (update_of_ne heq _ _).trans hopens
        | changing address' c =>
          rw [hstage'] at hopens
          exact hsender hopens
        | changed address' c succ =>
          rw [hstage'] at hopens
          refine ⟨hsender hopens.1, fun hsucc => ?_⟩
          obtain ⟨sd, hsd, hchanged⟩ := hopens.2 hsucc
          exact ⟨sd, hget hsd, hchanged⟩
        | broken =>
          rw [hstage'] at hopens
          exact hopens
    · intro e he
      obtain ⟨key', hr, hc⟩ := h.right e he
      exact ⟨key', hr, fun c hmem => hsender (hc c hmem)⟩
  have hopen := hnew.setStage (update_self ..)
    (show State.Opens _ key (.changing address s.senders.length) from update_self ..)
  unfold State.setOpening at *
  simpa using hopen

/-- The service has been asked to change its node. -/
theorem Followed.changenode (h : Followed s) (hct : s.connecting key = some ct) {address : String}
    {c : ℕ} (hstage : ct.stage = .changing address c) (succ : Bool) :
    Followed (s.changenode key ct address c succ) := by
  have hsender : s.nodeSender key = some c := by
    have hopens := h.stage key ct hct
    rw [hstage] at hopens
    exact hopens
  obtain ⟨sd₀, hsd₀, hnode₀⟩ := h.sender key c hsender
  unfold State.changenode
  dsimp only
  set connected : Sender → Sender := fun sd =>
    if succ then { sd with channel := some address, changed := some address }
    else { sd with channel := none } with hconnected
  have hnode : ∀ sd, (connected sd).node = sd.node := by
    intro sd
    rw [hconnected]
    dsimp only
    split_ifs
    all_goals rfl
  -- the senders of the other nodes are others
  have hother : ∀ {key' c' sd}, key' ≠ key → s.nodeSender key' = some c' →
      s.senders[c']? = some sd → (s.senders.modify c connected)[c']? = some sd := by
    intro key' c' sd hne hc' hsd
    have hcne : c ≠ c' := by
      rintro rfl
      obtain ⟨sd', hsd', hnode'⟩ := h.sender key' c hc'
      cases hsd₀.symm.trans hsd'
      exact hne (hnode'.symm.trans hnode₀)
    rw [List.getElem?_modify, hsd]
    exact congrArg some (if_neg hcne)
  have hstaged : Followed { s with
      senders := s.senders.modify c connected
      connecting := update s.connecting key (some { ct with stage := .namequery false }) } := by
    have hstaged : Followed (s.setOpening key { ct with stage := .namequery false }) :=
      h.setStage hct trivial
    refine { hstaged with current := ?_, sender := ?_, unique := ?_, stage := ?_ }
    · intro key' c' hc'
      obtain ⟨hnone, hsender', sd, address', hsd, hrest⟩ := hstaged.current key' c' hc'
      have hne : key' ≠ key := by
        rintro rfl
        cases (update_self ..).symm.trans hnone
      exact ⟨hnone, hsender', sd, address', hother hne hsender' hsd, hrest⟩
    · intro key' c' hc'
      obtain ⟨sd, hsd, hnode'⟩ := h.sender key' c' hc'
      show ∃ sd, (s.senders.modify c connected)[c']? = some sd ∧ _
      rw [List.getElem?_modify, hsd]
      refine ⟨_, rfl, ?_⟩
      split_ifs
      · exact (hnode sd).trans hnode'
      · exact hnode'
    · intro c' sd hsd
      change (s.senders.modify c connected)[c']? = some sd at hsd
      rw [List.getElem?_modify] at hsd
      obtain ⟨sd', hsd', heq⟩ := Option.map_eq_some_iff.mp hsd
      have hsame : sd.node = sd'.node := by
        rw [← heq]
        split_ifs
        · exact hnode sd'
        · rfl
      show s.nodeSender sd.node = some c'
      rw [hsame]
      exact h.unique c' sd' hsd'
    · intro key' ct' hct'
      change update s.connecting key _ key' = some ct' at hct'
      by_cases heq : key' = key
      · rw [heq, update_self] at hct'
        cases hct'
        trivial
      · rw [update_of_ne heq] at hct'
        have hopens := h.stage key' ct' hct'
        cases hstage' : ct'.stage with
        | namequery woken => trivial
        | launching address' =>
          rw [hstage'] at hopens
          exact hopens
        | changing address' c' =>
          rw [hstage'] at hopens
          exact hopens
        | changed address' c' succ' =>
          rw [hstage'] at hopens
          refine ⟨hopens.1, fun hsucc => ?_⟩
          obtain ⟨sd, hsd, hchanged⟩ := hopens.2 hsucc
          exact ⟨sd, hother heq hopens.1 hsd, hchanged⟩
        | broken =>
          rw [hstage'] at hopens
          exact hopens
  have hopens : State.Opens { s with
      senders := s.senders.modify c connected
      connecting := update s.connecting key (some { ct with stage := .namequery false }) } key
      (.changed address c succ) := by
    refine ⟨hsender, fun hsucc => ⟨connected sd₀, ?_, ?_⟩⟩
    · show (s.senders.modify c connected)[c]? = _
      rw [List.getElem?_modify, hsd₀]
      exact congrArg some (if_pos rfl)
    · rw [hconnected]
      exact (congrArg Sender.changed (if_pos hsucc)).trans rfl
  have hopen := hstaged.setStage (update_self ..) hopens
  unfold State.setOpening at *
  simpa using hopen

/-- The channel is there. -/
theorem Followed.changed (h : Followed s) (hct : s.connecting key = some ct) {address : String}
    {c : ℕ} (hstage : ct.stage = .changed address c true)
    (haddress : s.nodeAddress key = some (.host address)) :
    Followed (State.finish { s with nodeChannel := update s.nodeChannel key (some c) } key ct
      (some c)) := by
  have hopens := h.stage key ct hct
  rw [hstage] at hopens
  obtain ⟨hsender, hchanged⟩ := hopens
  obtain ⟨sd, hsd, haddress'⟩ := hchanged rfl
  have hfinish := h.finish hct fun c' (hc' : some c = some c') => by cases hc'; exact hsender
  refine { hfinish with current := fun key' c' hc' => ?_ }
  change update s.nodeChannel key (some c) key' = some c' at hc'
  by_cases heq : key' = key
  · subst heq
    rw [update_self] at hc'
    cases hc'
    exact ⟨update_self .., hsender, sd, address, hsd, haddress', haddress⟩
  · rw [update_of_ne heq] at hc'
    exact hfinish.current key' c' hc'

/-! ## Runs -/

/-- A request that has waited gets its answer. -/
theorem Followed.answer (h : Followed s) {r : ℕ} {channel : Option ℕ}
    (hwoken : (r, channel) ∈ s.woken) :
    Followed (State.answer { s with woken := s.woken.erase (r, channel) } r channel) := by
  refine { h with right := ?_, once := ?_ }
  · rintro e (he | he)
    · exact h.right e (Or.inl (List.mem_of_mem_erase he))
    · rcases List.mem_append.mp he with he | he
      · exact h.right e (Or.inr he)
      · rw [List.mem_singleton.mp he]
        exact h.right _ (Or.inl hwoken)
  · intro r' key hr
    have honce := h.once r' key hr
    show (s.answers ++ [(r, channel)]).countP _ + (s.woken.erase (r, channel)).countP _ +
      s.pending key r' = 1
    have hperm := (List.perm_cons_erase hwoken).countP_eq (fun e => decide (e.1 = r'))
    rw [List.countP_cons] at hperm
    rw [List.countP_append, List.countP_singleton]
    omega

/-- One step. -/
theorem Followed.step (h : Followed s) {a : Action} (hok : s.Settled a) {s' : State}
    (hstep : s.step a = some s') : Followed s' := by
  cases a with
  | sender node =>
    cases hstep
    exact h.request node
  | reload tmp =>
    cases hstep
    exact h.loadconfig tmp
  | resume key =>
    obtain ⟨ct, hct, hstep⟩ := Option.bind_eq_some_iff.mp hstep
    split_ifs at hstep
    cases hstep
    exact h.connect hct _
  | launched key ok =>
    obtain ⟨ct, hct, hstep⟩ := Option.bind_eq_some_iff.mp hstep
    split at hstep
    · rename_i address hstage
      rw [if_pos (show ok = true from hok)] at hstep
      cases hstep
      exact h.launched hct hstage
    · cases hstep
  | changenode key succ =>
    obtain ⟨ct, hct, hstep⟩ := Option.bind_eq_some_iff.mp hstep
    split at hstep
    · rename_i address c hstage
      cases hstep
      exact h.changenode hct hstage succ
    · cases hstep
  | changed key =>
    obtain ⟨ct, hct, hstep⟩ := Option.bind_eq_some_iff.mp hstep
    split at hstep
    · rename_i address c succ hstage
      cases hstep
      cases succ with
      | true =>
        have hcurrent : ct.stage.Current (s.nodeAddress key) := hok ct hct
        rw [hstage] at hcurrent
        exact h.changed hct hstage hcurrent
      | false => exact h.finish hct nofun
    · cases hstep
  | wakeup r channel =>
    rw [State.step] at hstep
    split_ifs at hstep with hwoken
    cases hstep
    exact h.answer hwoken

theorem Followed.init : Followed .init where
  current := nofun
  sender := nofun
  unique := nofun
  stage := nofun
  members := nofun
  right := by
    rintro e (he | he)
    all_goals cases he
  once := nofun

end

/-- **Cluster channels follow the configuration.** When new services are there and addresses do not
change under `open_channel`, a channel that is kept leads to the address of its node; a request has
its answer, which is the sender of its node or an error, or it is woken, or it waits for a channel
that is being opened; and a node has one sender. -/
theorem channels_follow {as : List Action} {s : State}
    (h : run State.step .init as = some s)
    (hok : Guarded State.step State.Settled .init as) :
    (∀ key c, s.nodeChannel key = some c → ∃ (sd : Sender) (address : String),
      s.senders[c]? = some sd ∧ sd.changed = some address ∧
        s.nodeAddress key = some (.host address)) ∧
    (∀ (r : ℕ) key, s.requests[r]? = some key →
      s.answers.countP (·.1 = r) = 1 ∧ s.woken.countP (·.1 = r) = 0 ∧ s.pending key r = 0 ∨
        s.answers.countP (·.1 = r) = 0 ∧ (s.woken.countP (·.1 = r) = 1 ∨
          ∃ ct ∈ s.connecting key, r ∈ ct.members ∧ ct.stage ≠ .broken)) ∧
    (∀ (r : ℕ) key c, s.requests[r]? = some key → (r, some c) ∈ s.answers →
      s.nodeSender key = some c) ∧
    ∀ (c c' : ℕ) (sd sd' : Sender), s.senders[c]? = some sd → s.senders[c']? = some sd' →
      sd.node = sd'.node → c = c' := by
  have hfollowed : Followed s :=
    run_invariant (fun s a s' h hok hstep => h.step hok hstep) Followed.init hok h
  refine ⟨?_, ?_, ?_, ?_⟩
  · exact fun key c hc => (hfollowed.current key c hc).2.2
  · intro r key hr
    have honce := hfollowed.once r key hr
    by_cases hpending : s.pending key r = 0
    · have hplace : s.answers.countP (·.1 = r) = 1 ∧ s.woken.countP (·.1 = r) = 0 ∨
          s.answers.countP (·.1 = r) = 0 ∧ s.woken.countP (·.1 = r) = 1 := by omega
      rcases hplace with ⟨hanswer, hwoken⟩ | ⟨hanswer, hwoken⟩
      · exact Or.inl ⟨hanswer, hwoken, hpending⟩
      · exact Or.inr ⟨hanswer, Or.inl hwoken⟩
    · refine Or.inr ⟨by omega, Or.inr ?_⟩
      unfold State.pending at hpending
      cases hct : s.connecting key with
      | none =>
        rw [hct] at hpending
        exact absurd rfl hpending
      | some ct =>
        rw [hct] at hpending
        refine ⟨ct, rfl, List.count_pos_iff.mp (Nat.pos_of_ne_zero hpending), fun hbroken => ?_⟩
        have hopens := hfollowed.stage key ct hct
        rw [hbroken] at hopens
        exact hopens
  · intro r key c hr hmem
    obtain ⟨key', hr', hc⟩ := hfollowed.right _ (Or.inr hmem)
    cases hr.symm.trans hr'
    exact hc c rfl
  · intro c c' sd sd' hsd hsd' hnode
    have hc := hfollowed.unique c sd hsd
    rw [hnode] at hc
    exact Option.some.inj (hc.symm.trans (hfollowed.unique c' sd' hsd'))

/-- The address of a node changes after its channel is there, and another channel follows. -/
theorem channels_follow_change :
    ∃ s : State, run State.step .init [.reload [(['a'], .address (.host "h:1"))], .sender ['a'],
      .launched ['a'] true, .sender ['a'], .changenode ['a'] true, .changed ['a'],
      .reload [(['a'], .address (.host "h:2"))], .sender ['a'], .changenode ['a'] true,
      .changed ['a'], .wakeup 1 (some 0)] = some s ∧ s.nodeChannel ['a'] = some 0 ∧
      s.answers = [(0, some 0), (2, some 0), (1, some 0)] ∧
      ∃ (sd : Sender) (address : String), s.senders[0]? = some sd ∧ sd.changed = some address ∧
        s.nodeAddress ['a'] = some (.host address) := by
  have hok : Guarded State.step State.Settled .init [.reload [(['a'], .address (.host "h:1"))],
      .sender ['a'], .launched ['a'] true, .sender ['a'], .changenode ['a'] true, .changed ['a'],
      .reload [(['a'], .address (.host "h:2"))], .sender ['a'], .changenode ['a'] true,
      .changed ['a'], .wakeup 1 (some 0)] := by
    decide
  exact ⟨_, rfl, rfl, rfl, (channels_follow rfl hok).1 ['a'] 0 rfl⟩

/-- It changes before, and the channel stays with the old one. -/
theorem channel_left_behind :
    ∃ s : State, run State.step .init [.reload [(['a'], .address (.host "h:1"))], .sender ['a'],
      .launched ['a'] true, .reload [(['a'], .address (.host "h:2"))], .changenode ['a'] true,
      .changed ['a']] = some s ∧ s.connecting ['a'] = none ∧ s.nodeChannel ['a'] = some 0 ∧
      s.senders[0]?.map Sender.changed = some (some "h:1") ∧
      s.nodeAddress ['a'] = some (.host "h:2") :=
  ⟨_, rfl, rfl, rfl, rfl, rfl⟩

end SkynetEureka.Clusterd
