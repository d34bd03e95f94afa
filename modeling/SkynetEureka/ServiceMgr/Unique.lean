import SkynetEureka.ServiceMgr.Managers

/-!
# Unique services are launched once

A manager starts a service once, all callers get the same, and a launch of a global service is
forwarded as one (`services_unique`). Two things are in the way: a local manager that has forwarded
a query has its field `launch` set, and a launch that comes then only waits; and an error of the
global manager comes as `nil`.
-/

namespace SkynetEureka.ServiceMgr

open Lib Function

/-- Nothing but a launch is forwarded for the name, or nothing yet. -/
def Service.Free : Service → Prop
  | .waiting (some launch) _ => launch.func = .call .launch
  | _ => True

instance : (v : Service) → Decidable v.Free
  | .waiting (some launch) _ => inferInstanceAs (Decidable (launch.func = .call .launch))
  | .waiting none _ | .handle _ | .error _ => inferInstanceAs (Decidable True)

/-- A launch of a global service does not come to a query, and the global manager has a handle. -/
def State.Asked (s : State) : Action → Prop
  | .request node .glaunch name subname => node ≠ 0 →
    ∀ key ∈ Command.key name subname .glaunch, ∀ v ∈ s.service node key, v.Free
  | .returned _ _ a => a.first ≠ .null
  | _ => True

instance (s : State) : (a : Action) → Decidable (s.Asked a)
  | .request node .glaunch name subname => inferInstanceAs (Decidable (node ≠ 0 →
      ∀ key ∈ Command.key name subname .glaunch, ∀ v ∈ s.service node key, v.Free))
  | .returned _ _ a => inferInstanceAs (Decidable (a.first ≠ .null))
  | .request _ .launch _ _ | .request _ .query _ _ | .request _ .gquery _ _ | .call _
  | .launched _ _ _ | .wakeup _ => inferInstanceAs (Decidable True)

/-- The callers in the table. -/
def Service.members : Service → List ℕ
  | .waiting launch waiters => (launch.map Launch.co).toList ++ waiters
  | _ => []

/-- A caller gets this. -/
def Service.Gives : Service → Answer → Prop
  | .handle h, .handle h' => h = h'
  | .error e, .error e' => e = e'
  | _, _ => False

/-- It is a handle or an error. -/
def Service.Settled : Service → Prop
  | .waiting _ _ => False
  | _ => True

/-- A service has been started for it. -/
def Service.Started : Service → Prop
  | .waiting (some ⟨_, .newservice⟩) _ => True
  | .waiting _ _ => False
  | _ => True

/-- A launch has been forwarded for it. -/
def Service.Forwards : Service → Prop
  | .waiting (some ⟨_, .call .launch⟩) _ => True
  | _ => False

/-- How often the caller is in the table of its name. -/
def State.pending (s : State) (r : ℕ) (req : Request) : ℕ :=
  req.key.elim 0 fun key => (s.service req.node key).elim 0 fun v => v.members.count r

/-- What a name has given stays; a caller is in one place, and `lost` is in none. -/
structure Served (s : State) (lost : Option ℕ) : Prop where
  started : ∀ node key, s.started.count (node, key) ≤ 1
  kept : ∀ node key, (node, key) ∈ s.started → ∃ v, s.service node key = some v ∧ v.Started
  members : ∀ node key v, s.service node key = some v → ∀ r ∈ v.members,
    ∃ req, s.requests[r]? = some req ∧ req.node = node ∧ req.key = some key ∧
      (req.command = .glaunch → node ≠ 0 → v.Forwards)
  forwarded : ∀ node key co cmd waiters,
    s.service node key = some (.waiting (some ⟨co, .call cmd⟩) waiters) →
      (node, cmd, key) ∈ s.forwarded
  woken : ∀ r ∈ s.woken, ∃ req key v, s.requests[r]? = some req ∧ req.key = some key ∧
    s.service req.node key = some v ∧ v.Settled
  right : ∀ e ∈ s.answers, ∃ req, s.requests[e.1]? = some req ∧ ∀ key, req.key = some key →
    ∃ v, s.service req.node key = some v ∧ v.Gives e.2
  once : ∀ (r : ℕ) req, s.requests[r]? = some req →
    s.answers.countP (·.1 = r) + s.woken.count r + s.pending r req =
      if lost = some r then 0 else 1

section

variable {s : State} {r : ℕ} {req : Request} {key : Name}

theorem pending_none (h : req.key = none) : s.pending r req = 0 := by
  unfold State.pending
  rw [h]
  rfl

theorem pending_some (h : req.key = some key) :
    s.pending r req = (s.service req.node key).elim 0 fun v => v.members.count r := by
  unfold State.pending
  rw [h]
  rfl

/-- A call comes. -/
theorem Served.arrive (h : Served s none) (req : Request) :
    Served { s with requests := s.requests ++ [req] } (some s.requests.length) := by
  have hkeep : ∀ {r : ℕ} {req'}, s.requests[r]? = some req' →
      (s.requests ++ [req])[r]? = some req' := fun hr =>
    (List.getElem?_append_left (List.getElem?_eq_some_iff.mp hr).1).trans hr
  refine { h with members := ?_, woken := ?_, right := ?_, once := ?_ }
  · intro node key v hv r hr
    obtain ⟨req', hreq, hrest⟩ := h.members node key v hv r hr
    exact ⟨req', hkeep hreq, hrest⟩
  · intro r hr
    obtain ⟨req', key, v, hreq, hrest⟩ := h.woken r hr
    exact ⟨req', key, v, hkeep hreq, hrest⟩
  · intro e he
    obtain ⟨req', hreq, hrest⟩ := h.right e he
    exact ⟨req', hkeep hreq, hrest⟩
  · intro r req' hreq
    show s.answers.countP _ + s.woken.count r + s.pending r req' = _
    by_cases hlt : r < s.requests.length
    · rw [if_neg fun heq => absurd (Option.some.inj heq) (by omega)]
      exact (h.once r req' ((List.getElem?_append_left hlt).symm.trans hreq)).trans (if_neg nofun)
    · have hlength := (List.getElem?_eq_some_iff.mp hreq).1
      rw [List.length_append, List.length_singleton] at hlength
      obtain rfl : r = s.requests.length := by omega
      -- the number is new
      have hnew : ∀ {req'}, s.requests[s.requests.length]? ≠ some req' := by
        intro req' heq
        exact absurd (List.getElem?_eq_some_iff.mp heq).1 (lt_irrefl _)
      have hanswers : s.answers.countP (·.1 = s.requests.length) = 0 := by
        rw [List.countP_eq_zero]
        intro e he heq
        obtain ⟨req'', hreq', -⟩ := h.right e he
        rw [of_decide_eq_true heq] at hreq'
        exact hnew hreq'
      have hwoken : s.woken.count s.requests.length = 0 := by
        refine List.count_eq_zero_of_not_mem fun hmem => ?_
        obtain ⟨req'', key, v, hreq', -⟩ := h.woken _ hmem
        exact hnew hreq'
      have hpending : s.pending s.requests.length req' = 0 := by
        cases hkey : req'.key with
        | none => exact pending_none hkey
        | some key =>
          rw [pending_some hkey]
          cases hv : s.service req'.node key with
          | none => rfl
          | some v =>
            refine List.count_eq_zero_of_not_mem fun hmem => ?_
            obtain ⟨req'', hreq', -⟩ := h.members _ key v hv _ hmem
            exact hnew hreq'
      rw [if_pos rfl, hanswers, hwoken, hpending]

/-- A caller gets its answer. -/
theorem Served.answer (h : Served s (some r)) {a : Answer} (hreq : s.requests[r]? = some req)
    (ha : ∀ key, req.key = some key → ∃ v, s.service req.node key = some v ∧ v.Gives a) :
    Served (s.answer r a) none := by
  refine { h with right := ?_, once := ?_ }
  · intro e he
    rcases List.mem_append.mp he with he | he
    · exact h.right e he
    · rw [List.mem_singleton.mp he]
      exact ⟨req, hreq, ha⟩
  · intro r' req' hreq'
    have honce := h.once r' req' hreq'
    show (s.answers ++ [(r, a)]).countP _ + s.woken.count r' + s.pending r' req' = _
    rw [List.countP_append, List.countP_singleton, if_neg (show ¬none = some r' from nofun)]
    by_cases heq : r = r'
    · rw [if_pos (congrArg some heq)] at honce
      rw [if_pos (decide_eq_true heq)]
      omega
    · rw [if_neg fun heq' => heq (Option.some.inj heq')] at honce
      rw [if_neg (by simp [heq])]
      omega

theorem service_setService (node node' : ℕ) (key' : Name) (v : Option Service) :
    (s.setService node key v).service node' key' =
      if node' = node ∧ key' = key then v else s.service node' key' := by
  show update s.service node _ node' key' = _
  by_cases hnode : node' = node
  · rw [hnode, update_self]
    by_cases hkey : key' = key
    · rw [hkey, update_self, if_pos ⟨rfl, rfl⟩]
    · rw [update_of_ne hkey, if_neg fun hand => hkey hand.2]
  · rw [update_of_ne hnode, if_neg fun hand => hnode hand.1]

/-- A caller is put in the table of its name. -/
theorem Served.enter (h : Served s (some r)) (hreq : s.requests[r]? = some req)
    (hkey : req.key = some key) {v : Service} {started : List (ℕ × Name)}
    (hold : ∀ v', s.service req.node key = some v' → ¬ v'.Settled)
    (hcount : ∀ r', v.members.count r' =
      ((s.service req.node key).elim 0 fun v => v.members.count r') + if r' = r then 1 else 0)
    (hforwards : ∀ r' ∈ v.members, ∀ req', s.requests[r']? = some req' →
      req'.command = .glaunch → req.node ≠ 0 → v.Forwards)
    (hforwarded : ∀ co cmd waiters, v = .waiting (some ⟨co, .call cmd⟩) waiters →
      (req.node, cmd, key) ∈ s.forwarded)
    (hstarted : ∀ node key', started.count (node, key') ≤ 1)
    (hkept : ∀ node key', (node, key') ∈ started →
      if node = req.node ∧ key' = key then v.Started else (node, key') ∈ s.started) :
    Served { s.setService req.node key (some v) with started := started } none := by
  have hservice : ∀ node' key' v, (s.setService req.node key v).service node' key' = _ :=
    service_setService req.node
  constructor
  · exact hstarted
  · intro node key' hmem
    have hstart := hkept node key' hmem
    show ∃ v', (s.setService req.node key (some v)).service node key' = some v' ∧ _
    rw [hservice]
    split_ifs with heq
    · rw [if_pos heq] at hstart
      exact ⟨v, rfl, hstart⟩
    · rw [if_neg heq] at hstart
      exact h.kept node key' hstart
  · intro node key' v' hv' r' hr'
    change (s.setService req.node key (some v)).service node key' = some v' at hv'
    rw [hservice] at hv'
    split_ifs at hv' with heq
    · cases hv'
      obtain ⟨rfl, rfl⟩ := heq
      -- it is the new one, or it was there
      by_cases hr : r' = r
      · subst hr
        exact ⟨req, hreq, rfl, hkey, fun hglaunch => hforwards r' hr' req hreq hglaunch⟩
      · have hpos := List.count_pos_iff.mpr hr'
        rw [hcount, if_neg hr] at hpos
        cases hv : s.service req.node key' with
        | none =>
          rw [hv] at hpos
          exact absurd hpos (lt_irrefl _)
        | some v₀ =>
          rw [hv] at hpos
          obtain ⟨req', hreq', hnode, hkey', -⟩ :=
            h.members _ _ v₀ hv r' (List.count_pos_iff.mp hpos)
          exact ⟨req', hreq', hnode, hkey', fun hglaunch => hforwards r' hr' req' hreq' hglaunch⟩
    · exact h.members node key' v' hv' r' hr'
  · intro node key' co cmd waiters hv'
    change (s.setService req.node key (some v)).service node key' = _ at hv'
    rw [hservice] at hv'
    split_ifs at hv' with heq
    · cases hv'
      obtain ⟨rfl, rfl⟩ := heq
      exact hforwarded co cmd waiters rfl
    · exact h.forwarded node key' co cmd waiters hv'
  · intro r' hr'
    obtain ⟨req', key', v', hreq', hkey', hv', hsettled⟩ := h.woken r' hr'
    refine ⟨req', key', v', hreq', hkey', ?_, hsettled⟩
    show (s.setService req.node key (some v)).service req'.node key' = _
    rw [hservice, if_neg, hv']
    rintro ⟨hnode, rfl⟩
    rw [hnode] at hv'
    exact hold v' hv' hsettled
  · intro e he
    obtain ⟨req', hreq', hgives⟩ := h.right e he
    refine ⟨req', hreq', fun key' hkey' => ?_⟩
    obtain ⟨v', hv', hgives'⟩ := hgives key' hkey'
    refine ⟨v', ?_, hgives'⟩
    show (s.setService req.node key (some v)).service req'.node key' = _
    rw [hservice, if_neg, hv']
    rintro ⟨hnode, rfl⟩
    rw [hnode] at hv'
    refine hold v' hv' ?_
    cases v' with
    | handle h' => trivial
    | error e' => trivial
    | waiting launch waiters => cases hgives'
  · intro r' req' hreq'
    have honce := h.once r' req' hreq'
    show s.answers.countP _ + s.woken.count r' +
      (s.setService req.node key (some v)).pending r' req' = 1
    cases hkey' : req'.key with
    | none =>
      rw [pending_none hkey'] at honce ⊢
      have hne : r ≠ r' := by
        rintro rfl
        cases hreq.symm.trans hreq'
        cases hkey.symm.trans hkey'
      rwa [if_neg fun heq => hne (Option.some.inj heq)] at honce
    | some key' =>
      rw [pending_some hkey'] at honce ⊢
      rw [hservice]
      by_cases heq : req'.node = req.node ∧ key' = key
      · rw [if_pos heq]
        show _ + _ + v.members.count r' = 1
        rw [hcount]
        rw [heq.1, heq.2] at honce
        by_cases hr : r' = r
        · rw [if_pos (congrArg some hr.symm)] at honce
          rw [if_pos hr]
          omega
        · rw [if_neg fun heq => hr (Option.some.inj heq).symm] at honce
          rw [if_neg hr]
          omega
      · have hne : r ≠ r' := by
          rintro rfl
          cases hreq.symm.trans hreq'
          exact heq ⟨rfl, Option.some.inj (hkey'.symm.trans hkey)⟩
        rw [if_neg fun heq => hne (Option.some.inj heq)] at honce
        rwa [if_neg heq]

/-- `request` launches, or forwards. -/
theorem Served.request (h : Served s (some r)) (hreq : s.requests[r]? = some req)
    (hkey : req.key = some key) (name : Name) (subname : Option Name) {waiters : List ℕ}
    (hold : s.service req.node key = none ∧ waiters = [] ∨
      s.service req.node key = some (.waiting none waiters))
    {func : Func} (hfunc : req.command = .glaunch → req.node ≠ 0 → func = .call .launch) :
    Served (s.request r req.node key name subname waiters func) none := by
  have hunsettled : ∀ v, s.service req.node key = some v → ¬ v.Settled ∧ ¬ v.Started := by
    intro v hv
    rcases hold with ⟨hnone, -⟩ | hsome
    · cases hnone.symm.trans hv
    · cases hsome.symm.trans hv
      exact ⟨id, id⟩
  have hfresh : (req.node, key) ∉ s.started := by
    intro hmem
    obtain ⟨v, hv, hstarted⟩ := h.kept _ _ hmem
    exact (hunsettled v hv).2 hstarted
  have hcount : ∀ r', (Service.waiting (some ⟨r, func⟩) waiters).members.count r' =
      ((s.service req.node key).elim 0 fun v => v.members.count r') +
        if r' = r then 1 else 0 := by
    intro r'
    show (r :: waiters).count r' = _
    rw [List.count_cons]
    simp only [beq_iff_eq, eq_comm (a := r)]
    rcases hold with ⟨hnone, rfl⟩ | hsome
    · rw [hnone]
      rfl
    · rw [hsome]
      rfl
  -- a launch of a global service would not have waited
  have hforwards : ∀ r' ∈ (Service.waiting (some ⟨r, func⟩) waiters).members, ∀ req',
      s.requests[r']? = some req' → req'.command = .glaunch → req.node ≠ 0 →
        (Service.waiting (some ⟨r, func⟩) waiters).Forwards := by
    intro r' hr' req' hreq' hglaunch hnode
    rcases List.mem_cons.mp hr' with rfl | hr'
    · cases hreq.symm.trans hreq'
      rw [hfunc hglaunch hnode]
      trivial
    · rcases hold with ⟨-, rfl⟩ | hsome
      · cases hr'
      · obtain ⟨req'', hreq'', -, -, hnot⟩ := h.members _ _ _ hsome r' hr'
        cases hreq'.symm.trans hreq''
        exact absurd (hnot hglaunch hnode) id
  unfold State.request
  cases func with
  | newservice =>
    refine h.enter hreq hkey (fun v hv => (hunsettled v hv).1) hcount hforwards nofun ?_ ?_
    · intro node key'
      rw [List.count_append, List.count_singleton]
      split_ifs with heq
      · obtain ⟨rfl, rfl⟩ := Prod.mk.inj (eq_of_beq heq)
        show s.started.count (req.node, key) + 1 ≤ 1
        rw [List.count_eq_zero_of_not_mem hfresh]
      · exact h.started node key'
    · intro node key' hmem
      split_ifs with heq
      · trivial
      · refine (List.mem_append.mp hmem).resolve_right fun hmem => ?_
        obtain ⟨rfl, rfl⟩ := Prod.mk.inj (List.mem_singleton.mp hmem)
        exact heq ⟨rfl, rfl⟩
  | call cmd =>
    have hforward : Served { s with
        calls := s.calls ++ [⟨req.node, key, cmd, name, subname⟩]
        forwarded := s.forwarded ++ [(req.node, cmd, key)] } (some r) :=
      { h with forwarded := fun node key' co cmd' waiters' hv =>
          List.mem_append_left _ (h.forwarded node key' co cmd' waiters' hv) }
    refine hforward.enter hreq hkey (fun v hv => (hunsettled v hv).1) hcount hforwards ?_
      h.started ?_
    · intro co cmd' waiters' heq
      cases heq
      exact List.mem_append_right _ (List.mem_singleton_self _)
    · intro node key' hmem
      split_ifs with heq
      · rw [heq.1, heq.2] at hmem
        exact absurd hmem hfresh
      · exact hmem

/-- `waitfor` -/
theorem Served.waitfor (h : Served s (some r)) (hreq : s.requests[r]? = some req)
    (hkey : req.key = some key) (name : Name) (subname : Option Name) {func : Option Func}
    (hfunc : req.command = .glaunch → req.node ≠ 0 → func = some (.call .launch))
    (hfree : req.command = .glaunch → req.node ≠ 0 → ∀ v ∈ s.service req.node key, v.Free) :
    Served (s.waitfor r req.node key name subname func) none := by
  unfold State.waitfor
  cases hv : s.service req.node key with
  | none =>
    cases func with
    | some func =>
      exact h.request hreq hkey name subname (Or.inl ⟨hv, rfl⟩) fun hglaunch hnode =>
        Option.some.inj (hfunc hglaunch hnode)
    | none =>
      refine h.enter hreq hkey ?_ ?_ ?_ nofun h.started ?_
      · intro v hv'
        cases hv.symm.trans hv'
      · intro r'
        show [r].count r' = _
        rw [hv, List.count_singleton]
        simp only [beq_iff_eq, eq_comm (a := r)]
        exact (Nat.zero_add _).symm
      · intro r' hr' req' hreq' hglaunch hnode
        rw [List.mem_singleton.mp hr'] at hreq'
        cases hreq.symm.trans hreq'
        cases hfunc hglaunch hnode
      · intro node key' hmem
        split_ifs with heq
        · obtain ⟨v, hv', -⟩ := h.kept node key' hmem
          rw [heq.1, heq.2, hv] at hv'
          cases hv'
        · exact hmem
  | some v =>
    cases v with
    | handle h' =>
      refine h.answer hreq fun key' hkey' => ⟨.handle h', ?_, rfl⟩
      cases hkey.symm.trans hkey'
      exact hv
    | error e =>
      refine h.answer hreq fun key' hkey' => ⟨.error e, ?_, rfl⟩
      cases hkey.symm.trans hkey'
      exact hv
    | waiting launch waiters =>
      have hcount : ∀ r',
          (Service.waiting launch (waiters ++ [r])).members.count r' =
            ((s.service req.node key).elim 0 fun v => v.members.count r') +
              if r' = r then 1 else 0 := by
        intro r'
        rw [hv]
        show ((launch.map Launch.co).toList ++ (waiters ++ [r])).count r' =
          ((launch.map Launch.co).toList ++ waiters).count r' + _
        rw [List.count_append, List.count_append, List.count_append, List.count_singleton,
          ← Nat.add_assoc]
        simp only [beq_iff_eq, eq_comm (a := r)]
      have hmembers : ∀ r' ∈ (Service.waiting launch (waiters ++ [r])).members,
          r' = r ∨ r' ∈ (Service.waiting launch waiters).members := by
        intro r' hr'
        rcases List.mem_append.mp hr' with hr' | hr'
        · exact Or.inr (List.mem_append_left _ hr')
        · rcases List.mem_append.mp hr' with hr' | hr'
          · exact Or.inr (List.mem_append_right _ hr')
          · exact Or.inl (List.mem_singleton.mp hr')
      cases launch with
      | none =>
        cases func with
        | some func =>
          exact h.request hreq hkey name subname (Or.inr hv) fun hglaunch hnode =>
            Option.some.inj (hfunc hglaunch hnode)
        | none =>
          refine h.enter hreq hkey ?_ hcount ?_ nofun h.started ?_
          · intro v hv'
            cases hv.symm.trans hv'
            exact id
          · intro r' hr' req' hreq' hglaunch hnode
            rcases hmembers r' hr' with rfl | hr'
            · cases hreq.symm.trans hreq'
              cases hfunc hglaunch hnode
            · obtain ⟨req'', hreq'', -, -, hforwards⟩ := h.members _ _ _ hv r' hr'
              cases hreq'.symm.trans hreq''
              exact hforwards hglaunch hnode
          · intro node key' hmem
            split_ifs with heq
            · obtain ⟨v, hv', hstarted⟩ := h.kept node key' hmem
              rw [heq.1, heq.2, hv] at hv'
              cases hv'
              exact hstarted
            · exact hmem
      | some launch =>
        refine h.enter hreq hkey ?_ hcount ?_ ?_ h.started ?_
        · intro v hv'
          cases hv.symm.trans hv'
          exact id
        · intro r' hr' req' hreq' hglaunch hnode
          obtain ⟨co, func'⟩ := launch
          rcases hmembers r' hr' with rfl | hr'
          · cases hreq.symm.trans hreq'
            have hfunc' : func' = .call .launch := hfree hglaunch hnode _ hv
            rw [hfunc']
            trivial
          · obtain ⟨req'', hreq'', -, -, hforwards⟩ := h.members _ _ _ hv r' hr'
            cases hreq'.symm.trans hreq''
            cases func' with
            | newservice => exact hforwards hglaunch hnode
            | call cmd =>
              cases cmd with
              | launch => trivial
              | query => exact hforwards hglaunch hnode
              | glaunch => exact hforwards hglaunch hnode
              | gquery => exact hforwards hglaunch hnode
        · intro co cmd waiters' heq
          cases heq
          exact h.forwarded _ _ co cmd waiters hv
        · intro node key' hmem
          split_ifs with heq
          · obtain ⟨v, hv', hstarted⟩ := h.kept node key' hmem
            rw [heq.1, heq.2, hv] at hv'
            cases hv'
            obtain ⟨co, func'⟩ := launch
            cases func' with
            | newservice => trivial
            | call cmd => exact hstarted
          · exact hmem

/-- A call is handled. -/
theorem Served.dispatch (h : Served s none) {node : ℕ} {command : Command} {name : Name}
    {subname : Option Name} {origin : Option (ℕ × Name)}
    (hfree : command = .glaunch → node ≠ 0 →
      ∀ key ∈ command.key name subname, ∀ v ∈ s.service node key, v.Free) :
    Served (s.dispatch node command name subname origin) none := by
  unfold State.dispatch
  dsimp only
  have harrive := h.arrive ⟨node, command, command.key name subname, origin⟩
  have hreq : (s.requests ++ [(⟨node, command, command.key name subname, origin⟩ : Request)])[
      s.requests.length]? = some ⟨node, command, command.key name subname, origin⟩ :=
    List.getElem?_concat_length
  cases hkey : command.key name subname with
  | none =>
    rw [hkey] at harrive hreq
    exact harrive.answer hreq nofun
  | some key =>
    rw [hkey] at harrive hreq
    refine harrive.waitfor hreq rfl ('@' :: name) subname ?_ ?_
    · rintro rfl hnode
      exact congrArg some (if_neg hnode)
    · exact fun hglaunch hnode => hfree hglaunch hnode key hkey

/-- `request` goes on with a handle or an error. -/
theorem Served.settle (h : Served s none) {node co : ℕ} {func : Func} {waiters : List ℕ}
    (hwaiting : s.service node key = some (.waiting (some ⟨co, func⟩) waiters)) {result : Answer}
    (hresult : result ≠ .null) : Served (s.settle node key co waiters result) none := by
  -- what the name has now
  obtain ⟨v, hv, hsettled, hgives⟩ :
      ∃ v, result.service = some v ∧ v.Settled ∧ v.Gives result := by
    cases result with
    | handle h' => exact ⟨.handle h', rfl, trivial, rfl⟩
    | error e => exact ⟨.error e, rfl, trivial, rfl⟩
    | null => exact absurd rfl hresult
  have hmembers := h.members node key _ hwaiting
  have hnomembers : v.members = [] := by
    cases v with
    | handle h' => rfl
    | error e => rfl
    | waiting launch waiters' => exact absurd hsettled id
  obtain ⟨req, hreq, rfl, hkey, -⟩ := hmembers co List.mem_cons_self
  have hservice : ∀ node' key' v, (s.setService req.node key v).service node' key' = _ :=
    service_setService req.node
  unfold State.settle
  rw [hv]
  dsimp only
  -- a name that has given something is another one
  have hother : ∀ {req' : Request} {key' v'}, s.service req'.node key' = some v' →
      v'.Settled → ¬ (req'.node = req.node ∧ key' = key) := by
    rintro req' key' v' hv' hsettled' ⟨hnode, rfl⟩
    rw [hnode, hwaiting] at hv'
    cases hv'
    exact hsettled'
  have hlost : Served { s.setService req.node key (some v) with
      woken := s.woken ++ waiters } (some co) := by
    constructor
    · exact h.started
    · intro node key' hmem
      show ∃ v', (s.setService req.node key (some v)).service node key' = some v' ∧ _
      rw [hservice]
      split_ifs with heq
      · refine ⟨v, rfl, ?_⟩
        cases v with
        | handle h' => trivial
        | error e => trivial
        | waiting launch waiters' => exact absurd hsettled id
      · exact h.kept node key' hmem
    · intro node key' v' hv' r' hr'
      change (s.setService req.node key (some v)).service node key' = some v' at hv'
      rw [hservice] at hv'
      split_ifs at hv' with heq
      · cases hv'
        rw [hnomembers] at hr'
        cases hr'
      · exact h.members node key' v' hv' r' hr'
    · intro node key' co' cmd waiters' hv'
      change (s.setService req.node key (some v)).service node key' = _ at hv'
      rw [hservice] at hv'
      split_ifs at hv' with heq
      · cases hv'
        exact absurd hsettled id
      · exact h.forwarded node key' co' cmd waiters' hv'
    · intro r' hr'
      rcases List.mem_append.mp hr' with hr' | hr'
      · obtain ⟨req', key', v', hreq', hkey', hv', hsettled'⟩ := h.woken r' hr'
        refine ⟨req', key', v', hreq', hkey', ?_, hsettled'⟩
        show (s.setService req.node key (some v)).service req'.node key' = _
        rw [hservice, if_neg (hother hv' hsettled'), hv']
      · obtain ⟨req', hreq', hnode, hkey', -⟩ := hmembers r' (List.mem_cons_of_mem _ hr')
        refine ⟨req', key, v, hreq', hkey', ?_, hsettled⟩
        show (s.setService req.node key (some v)).service req'.node key = _
        rw [hservice, if_pos ⟨hnode, rfl⟩]
    · intro e he
      obtain ⟨req', hreq', hgives'⟩ := h.right e he
      refine ⟨req', hreq', fun key' hkey' => ?_⟩
      obtain ⟨v', hv', hgives''⟩ := hgives' key' hkey'
      refine ⟨v', ?_, hgives''⟩
      have hsettled' : v'.Settled := by
        cases v' with
        | handle h' => trivial
        | error e' => trivial
        | waiting launch waiters' => cases hgives''
      show (s.setService req.node key (some v)).service req'.node key' = _
      rw [hservice, if_neg (hother hv' hsettled'), hv']
    · intro r' req' hreq'
      have honce := h.once r' req' hreq'
      rw [if_neg (show ¬none = some r' from nofun)] at honce
      show s.answers.countP _ + (s.woken ++ waiters).count r' +
        (s.setService req.node key (some v)).pending r' req' = _
      rw [List.count_append]
      by_cases hsame : req'.node = req.node ∧ req'.key = some key
      · rw [pending_some hsame.2, hsame.1, hwaiting] at honce
        change _ + _ + (co :: waiters).count r' = 1 at honce
        rw [List.count_cons] at honce
        rw [pending_some hsame.2, hservice, if_pos ⟨hsame.1, rfl⟩]
        show _ + _ + v.members.count r' = _
        rw [hnomembers, List.count_nil]
        by_cases hco : co = r'
        · rw [if_pos (beq_iff_eq.mpr hco)] at honce
          rw [if_pos (congrArg some hco)]
          omega
        · rw [if_neg (by simp [hco])] at honce
          rw [if_neg fun heq => hco (Option.some.inj heq)]
          omega
      · have hnot : ∀ r'', r'' = r' → r'' ∉ co :: waiters := by
          rintro r'' rfl hmem
          obtain ⟨req'', hreq'', hnode, hkey'', -⟩ := hmembers r'' hmem
          cases hreq'.symm.trans hreq''
          exact hsame ⟨hnode, hkey''⟩
        have hpending : (s.setService req.node key (some v)).pending r' req' =
            s.pending r' req' := by
          cases hkey' : req'.key with
          | none => rw [pending_none hkey', pending_none hkey']
          | some key' =>
            rw [pending_some hkey', pending_some hkey', hservice, if_neg]
            rintro ⟨hnode, rfl⟩
            exact hsame ⟨hnode, hkey'⟩
        rw [hpending, List.count_eq_zero_of_not_mem fun hmem =>
          hnot r' rfl (List.mem_cons_of_mem _ hmem), if_neg]
        · omega
        · exact fun heq => hnot co (Option.some.inj heq) List.mem_cons_self
  refine hlost.answer hreq fun key' hkey' => ⟨v, ?_, hgives⟩
  cases hkey.symm.trans hkey'
  show (s.setService req.node key (some v)).service req.node key = _
  rw [hservice, if_pos ⟨rfl, rfl⟩]

/-- A caller that has waited goes on. -/
theorem Served.resume (h : Served s none) (hwoken : r ∈ s.woken)
    (hreq : s.requests[r]? = some req) (hkey : req.key = some key) :
    Served (State.resume { s with woken := s.woken.erase r } r req.node key) none := by
  have hlost : Served { s with woken := s.woken.erase r } (some r) := by
    refine { h with woken := fun r' hr' => h.woken r' (List.mem_of_mem_erase hr'), once := ?_ }
    intro r' req' hreq'
    have honce := h.once r' req' hreq'
    rw [if_neg (show ¬none = some r' from nofun)] at honce
    show _ + (s.woken.erase r).count r' + s.pending r' req' = _
    by_cases hr : r = r'
    · subst hr
      have hpos : 0 < s.woken.count r := List.count_pos_iff.mpr hwoken
      rw [List.count_erase_self, if_pos rfl]
      show s.answers.countP _ + _ + _ = 0
      omega
    · rw [List.count_erase_of_ne (Ne.symm hr), if_neg fun heq => hr (Option.some.inj heq)]
      exact honce
  obtain ⟨req', key', v, hreq', hkey', hv, hsettled⟩ := h.woken r hwoken
  cases hreq.symm.trans hreq'
  cases hkey.symm.trans hkey'
  unfold State.resume
  dsimp only
  rw [hv]
  cases v with
  | handle h' =>
    refine hlost.answer hreq fun key' hkey' => ⟨.handle h', ?_, rfl⟩
    cases hkey.symm.trans hkey'
    exact hv
  | error e =>
    refine hlost.answer hreq fun key' hkey' => ⟨.error e, ?_, rfl⟩
    cases hkey.symm.trans hkey'
    exact hv
  | waiting launch waiters => exact absurd hsettled id

/-- One step. -/
theorem Served.step (h : Served s none) {a : Action} (hok : s.Asked a) {s' : State}
    (hstep : s.step a = some s') : Served s' none := by
  cases a with
  | request node command name subname =>
    cases hstep
    refine h.dispatch ?_
    rintro rfl hnode key hkey v hv
    exact hok hnode key hkey v hv
  | call c =>
    rw [State.step] at hstep
    split_ifs at hstep
    cases hstep
    have herase : Served { s with calls := s.calls.erase c } none := { h with }
    exact herase.dispatch fun _ hnode => absurd rfl hnode
  | launched node key result =>
    rw [State.step] at hstep
    split at hstep
    · rename_i co waiters hwaiting
      cases hstep
      refine h.settle hwaiting ?_
      cases result
      all_goals nofun
    · cases hstep
  | returned node key a =>
    rw [State.step] at hstep
    split_ifs at hstep
    split at hstep
    · rename_i co cmd waiters hwaiting
      cases hstep
      have herase : Served { s with responses := s.responses.erase (node, key, a) } none :=
        { h with }
      exact herase.settle hwaiting hok
    · cases hstep
  | wakeup r =>
    obtain ⟨req, hreq, hstep⟩ := Option.bind_eq_some_iff.mp hstep
    obtain ⟨key, hkey, hstep⟩ := Option.bind_eq_some_iff.mp hstep
    split_ifs at hstep with hwoken
    cases hstep
    exact h.resume hwoken hreq hkey

theorem Served.init : Served .init none where
  started _ _ := Nat.zero_le 1
  kept := nofun
  members := nofun
  forwarded := nofun
  woken := nofun
  right := nofun
  once := nofun

end

end SkynetEureka.ServiceMgr
