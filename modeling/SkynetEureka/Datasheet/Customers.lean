import SkynetEureka.Datasheet.Building

/-!
# The steps of a customer

What a customer sends and gets, and what the service does with its requests. A customer has each
version from the one it has queried until it gives it back, and is told the next one.
-/

namespace SkynetEureka.Datasheet

open Lib Function

variable {s : Sheet} {rest : Option ℕ} {k v w L : ℕ} {c c' : Customer} {handle : Option ℕ}
  {request : Request} {requests : List Request} {answers : List (Option ℕ)}

/-! ## One customer changes -/

theorem filterMap_cons_toList {l : List Customer} :
    (c :: l).filterMap Customer.rest = c.rest.toList ++ l.filterMap Customer.rest := by
  rw [List.filterMap_cons]
  cases c.rest <;> rfl

/-- The version of a customer, and those of the others -/
theorem rests_put (hget : s.customers[k]? = some c) :
    ∃ others, (s.rests rest).Perm (c.rest.toList ++ others) ∧
      ((s.put k c').rests rest).Perm (c'.rest.toList ++ others) := by
  obtain ⟨hlt, -⟩ := List.getElem?_eq_some_iff.mp hget
  refine ⟨rest.toList ++ (s.customers.eraseIdx k).filterMap Customer.rest, ?_, ?_⟩
  · have hperm := (perm_cons_eraseIdx hget).filterMap Customer.rest
    rw [filterMap_cons_toList] at hperm
    exact (hperm.append_left _).trans (List.perm_append_comm_assoc _ _ _)
  · have hperm := (List.set_perm_cons_eraseIdx hlt c').filterMap Customer.rest
    rw [filterMap_cons_toList] at hperm
    exact (hperm.append_left _).trans (List.perm_append_comm_assoc _ _ _)

theorem mem_rests (hget : s.customers[k]? = some c) (hrest : c.rest = some v) : v ∈ s.rests rest :=
  List.mem_append_right _ (List.mem_filterMap.mpr ⟨c, List.mem_of_getElem? hget, hrest⟩)

theorem Following.put (hs : Following s) (hok : c'.Ok (k ∈ s.monitors))
    (hhanded : ∀ v ∈ c'.handed, s.Near k v) : Following (s.put k c') := by
  refine ⟨fun j d hd => ?_, fun j d hd => ?_, fun j hj => ?_⟩
  · rcases getElem?_set_cases hd with ⟨rfl, rfl⟩ | ⟨-, hd⟩
    · exact hok
    · exact hs.ok j d hd
  · rcases getElem?_set_cases hd with ⟨rfl, rfl⟩ | ⟨-, hd⟩
    · exact hhanded
    · exact hs.handed j d hd
  · show j < (s.customers.set k c').length
    rw [List.length_set]
    exact hs.monitors j hj

theorem Collecting.put (hs : Collecting s) : Collecting (s.put k c) :=
  ⟨hs.pending, hs.kept, hs.collected, hs.cache, hs.answered⟩

/-- A customer moves on with the version that it has. -/
theorem Inv.put (hs : Inv s rest) (hget : s.customers[k]? = some c) (hrest : c'.rest = c.rest)
    (hok : c'.Ok (k ∈ s.monitors)) (hhanded : ∀ v ∈ c'.handed, s.Near k v) :
    Inv (s.put k c') rest := by
  refine ⟨hs.builder, ?_, hs.collecting.put, hs.following.put hok hhanded⟩
  obtain ⟨others, hbefore, hafter⟩ := @rests_put _ rest _ _ c' hget
  rw [hrest] at hafter
  exact hs.counted.perm (hafter.trans hbefore.symm)

theorem reply_put (hlt : k < s.customers.length) : (s.put k c).reply k handle =
    s.put k { c with answers := c.answers ++ [handle] } := by
  unfold Sheet.reply Sheet.put
  congr 1
  refine List.ext_getElem? fun j => ?_
  by_cases hj : j = k
  · subst hj
    rw [List.getElem?_modify_eq, List.getElem?_set_self hlt, List.getElem?_set_self hlt]
    rfl
  · rw [List.getElem?_modify_ne _ _ (Ne.symm hj), List.getElem?_set_ne (Ne.symm hj),
      List.getElem?_set_ne (Ne.symm hj)]

/-! ## Its own steps -/

/-- Another customer -/
theorem Inv.query (hs : Inv s rest) :
    Inv { s with customers := s.customers ++ [⟨.querying, [.query], []⟩] } rest := by
  have hnot : s.customers.length ∉ s.monitors := by
    intro hmem
    exact (hs.following.monitors _ hmem).false
  refine ⟨hs.builder, ?_, ⟨hs.collecting.pending, hs.collecting.kept, hs.collecting.collected,
    hs.collecting.cache, hs.collecting.answered⟩, ⟨fun k c hc => ?_, fun k c hc => ?_, fun k hk => ?_⟩⟩
  · show Counted s.handle (rest.toList ++ List.filterMap Customer.rest (s.customers ++ _)) _
    rw [List.filterMap_append]
    exact (List.append_nil (s.customers.filterMap Customer.rest)).symm ▸ hs.counted
  · rcases getElem?_concat_cases hc with hold | ⟨rfl, rfl⟩
    · exact hs.following.ok k c hold
    · exact .asking rfl rfl rfl hnot
  · rcases getElem?_concat_cases hc with hold | ⟨rfl, rfl⟩
    · exact hs.following.handed k c hold
    · intro v hv
      cases hv
  · show k < (s.customers ++ _).length
    rw [List.length_append]
    exact Nat.lt_add_right _ (hs.following.monitors k hk)

/-- A customer starts to monitor its version. -/
theorem Inv.start (hs : Inv s rest) (hget : s.customers[k]? = some c) (hphase : c.phase = .started v) :
    Inv (s.put k { c with phase := .monitoring v, sent := c.sent ++ [.monitor v] }) rest := by
  have hhanded := hs.following.handed k c hget
  cases hs.following.ok k c hget with
  | started u hphase' hsent hanswers hnot =>
    rw [hphase] at hphase'
    cases hphase'
    have hrest : c.rest = some v := by
      unfold Customer.rest
      rw [hsent, hphase]
      rfl
    have hv : v ∈ c.handed := by
      unfold Customer.handed
      rw [hanswers, hphase]
      rfl
    refine hs.put hget ?_ (.calling v rfl ?_ hanswers hnot) ?_
    · rw [hrest]
      unfold Customer.rest
      dsimp only
      rw [hsent]
      rfl
    · dsimp only
      rw [hsent]
      rfl
    · intro u hu
      unfold Customer.handed at hu
      dsimp only at hu
      rw [hanswers] at hu
      cases hu
      exact hhanded v hv
  | asking hphase' | answered _ hphase' | refused hphase' | failed hphase' | calling _ hphase'
  | releasing _ hphase' | waiting _ hphase' | told _ hphase' =>
    rw [hphase] at hphase'
    cases hphase'

/-- A customer gets an answer. -/
theorem Inv.resume (hs : Inv s rest) (hget : s.customers[k]? = some c)
    (hanswers : c.answers = handle :: answers) :
    Inv (s.put k ({ c with answers := answers }.resume handle)) rest := by
  obtain ⟨phase, sent, _⟩ := c
  dsimp only at hanswers
  subst hanswers
  have hhanded := hs.following.handed k _ hget
  cases hs.following.ok k _ hget with
  | answered v hphase hsent hanswers hnot =>
    cases hphase
    cases hsent
    cases hanswers
    refine hs.put hget rfl (.started v rfl rfl rfl hnot) fun u hu => ?_
    cases hu
    exact hhanded v rfl
  | refused hphase hsent hanswers hnot =>
    cases hphase
    cases hsent
    cases hanswers
    exact hs.put hget rfl (.failed rfl rfl rfl hnot) nofun
  | told v hphase hsent hanswers hnot =>
    cases hphase
    cases hsent
    cases hanswers
    refine hs.put hget rfl (.releasing v rfl rfl rfl hnot) fun u hu => ?_
    cases hu
    exact hhanded (v + 1) rfl
  | asking _ _ hanswers | failed _ _ hanswers | started _ _ _ hanswers | calling _ _ _ hanswers
  | releasing _ _ _ hanswers | waiting _ _ _ hanswers => cases hanswers

/-! ## The service -/

theorem query_none (hnone : s.handle = none) : s.query k = s.reply k none := by
  unfold Sheet.query
  rw [hnone]

theorem query_some {h : Handle} (hL : s.handle = some L) (hh : s.handles L = some h) :
    s.query k =
      { s with handles := Function.update s.handles L (some { h with ref := h.ref + 1 }) }.reply k
        (some L) := by
  unfold Sheet.query
  rw [hL]
  dsimp only
  rw [hh]

/-- The service handles a query. -/
theorem Inv.serve_query (hs : Inv s rest) (hget : s.customers[k]? = some c)
    (hphase : c.phase = .querying) (hsent : c.sent = [.query]) (hanswers : c.answers = [])
    (hnot : k ∉ s.monitors) : Inv ((s.put k { c with sent := [] }).query k) rest := by
  obtain ⟨phase, sent, answers⟩ := c
  cases hphase
  cases hsent
  cases hanswers
  obtain ⟨hlt, -⟩ := List.getElem?_eq_some_iff.mp hget
  cases hlatest : s.handle with
  | none =>
    have hquery : (s.put k ⟨.querying, [], []⟩).query k = s.put k ⟨.querying, [], [none]⟩ :=
      (query_none (s := s.put k ⟨.querying, [], []⟩) hlatest).trans (reply_put hlt)
    rw [hquery]
    exact hs.put hget rfl (.refused rfl rfl rfl hnot) nofun
  | some L =>
    obtain ⟨h, hh, hpos⟩ := hs.latest hlatest
    have hquery : (s.put k ⟨.querying, [], []⟩).query k =
        { s with handles := Function.update s.handles L (some { h with ref := h.ref + 1 }) }.put k
          ⟨.querying, [], [some L]⟩ :=
      (query_some (s := s.put k ⟨.querying, [], []⟩) hlatest hh).trans (reply_put (s := { s with
        handles := Function.update s.handles L (some { h with ref := h.ref + 1 }) }) hlt)
    have hcounted := hs.counted
    rw [hlatest] at hcounted
    obtain ⟨others, hbefore, hafter⟩ := @rests_put _ rest _ _
      ⟨.querying, [], [some L]⟩ hget
    rw [hquery]
    refine ⟨hs.builder, ?_, ?_, ?_⟩
    · show Counted s.handle ((s.put k ⟨.querying, [], [some L]⟩).rests rest)
        (refs (Function.update s.handles L (some { h with ref := h.ref + 1 })))
      rw [refs_update, hlatest]
      have hjoin := (hcounted.perm hbefore.symm).join (congrArg (Option.map Handle.ref) hh)
      exact hjoin.perm hafter
    · refine Collecting.put (@Collecting.set _ _ _ _ s.builder.sent hs.collecting hh (fun w => ?_) ?_)
      · by_cases hw : w = L
        · subst hw
          rw [if_pos rfl]
          have hpending := hs.collecting.pending w
          rw [hh] at hpending
          exact hpending
        · rw [if_neg hw]
      · intro _
        exact (Int.lt_add_one_of_le hpos.le).ne'
    · refine Following.put (s := { s with
        handles := Function.update s.handles L (some { h with ref := h.ref + 1 }) })
        (hs.following.of_eq rfl rfl rfl) (.answered L rfl rfl rfl hnot) fun u hu => ?_
      cases hu
      exact ⟨L, hlatest, le_rfl, Nat.le_succ L, fun _ => rfl⟩

theorem monitor_latest {h : Handle} (hh : s.handles v = some h) (hlatest : s.handle = some v)
    (hnot : k ∉ s.monitors) : s.monitor k v = { s with monitors := s.monitors ++ [k] } := by
  unfold Sheet.monitor
  rw [hh]
  dsimp only
  rw [if_neg (not_not_intro hlatest), if_neg hnot]

theorem monitor_changed {h : Handle} (hh : s.handles v = some h) (hlatest : s.handle ≠ some v) :
    s.monitor k v = s.reply k s.handle := by
  unfold Sheet.monitor
  rw [hh]
  dsimp only
  rw [if_pos hlatest]

/-- The service handles a request to monitor a version. -/
theorem Inv.serve_monitor (hs : Inv s rest) (hget : s.customers[k]? = some c)
    (hphase : c.phase = .monitoring v) (hsent : c.sent = [.monitor v]) (hanswers : c.answers = [])
    (hnot : k ∉ s.monitors) : Inv ((s.put k { c with sent := [] }).monitor k v) rest := by
  have hv := hs.following.handed k c hget v (by
    unfold Customer.handed
    rw [hanswers, hphase]
    rfl)
  obtain ⟨phase, sent, answers⟩ := c
  cases hphase
  cases hsent
  cases hanswers
  obtain ⟨hlt, -⟩ := List.getElem?_eq_some_iff.mp hget
  obtain ⟨L, hL, hle, hnext, -⟩ := hv
  obtain ⟨h, hh, -⟩ := hs.alive hL (mem_rests hget rfl) le_rfl hle
  by_cases hlatest : s.handle = some v
  · -- the customer waits for the next version
    have hmonitor : (s.put k ⟨.monitoring v, [], []⟩).monitor k v =
        { s.put k ⟨.monitoring v, [], []⟩ with monitors := s.monitors ++ [k] } :=
      monitor_latest (s := s.put k ⟨.monitoring v, [], []⟩) hh hlatest hnot
    have hothers : ∀ j ≠ k, (j ∈ s.monitors ++ [k]) = (j ∈ s.monitors) := by
      intro j hj
      simp [hj]
    have hk : k ∈ s.monitors ++ [k] := List.mem_append_right _ List.mem_cons_self
    obtain ⟨others, hbefore, hafter⟩ := @rests_put _ rest _ _ ⟨.monitoring v, [], []⟩ hget
    rw [hmonitor]
    refine ⟨hs.builder, hs.counted.perm (hafter.trans hbefore.symm), ?_, ⟨fun j d hd => ?_,
      fun j d hd u hu => ?_, fun j hj => ?_⟩⟩
    · exact ⟨hs.collecting.pending, hs.collecting.kept, hs.collecting.collected,
        hs.collecting.cache, hs.collecting.answered⟩
    · show d.Ok (j ∈ s.monitors ++ [k])
      rcases getElem?_set_cases hd with ⟨rfl, rfl⟩ | ⟨hj, hd⟩
      · exact .waiting v rfl rfl rfl hk
      · rw [hothers j hj]
        exact hs.following.ok j d hd
    · rcases getElem?_set_cases hd with ⟨rfl, rfl⟩ | ⟨hj, hd⟩
      · cases hu
        exact ⟨v, hlatest, le_rfl, Nat.le_succ v, fun _ => rfl⟩
      · obtain ⟨L, hL, hle, hnext, hmon⟩ := hs.following.handed j d hd u hu
        refine ⟨L, hL, hle, hnext, fun hmem => hmon ?_⟩
        exact (hothers j hj).mp hmem
    · show j < (s.customers.set k _).length
      rw [List.length_set]
      rcases List.mem_append.mp hj with hold | hnew
      · exact hs.following.monitors j hold
      · rw [List.mem_singleton.mp hnew]
        exact hlt
  · -- already changed, to the next version
    obtain rfl : L = v + 1 := by
      have hne : L ≠ v := fun heq => hlatest (heq ▸ hL)
      omega
    have hmonitor : (s.put k ⟨.monitoring v, [], []⟩).monitor k v =
        s.put k ⟨.monitoring v, [], [some (v + 1)]⟩ := by
      rw [monitor_changed (s := s.put k ⟨.monitoring v, [], []⟩) hh hlatest, reply_put hlt]
      exact congrArg (fun handle => s.put k ⟨.monitoring v, [], [handle]⟩) hL
    rw [hmonitor]
    refine hs.put hget rfl (.told v rfl rfl rfl hnot) fun u hu => ?_
    cases hu
    exact ⟨v + 1, hL, le_rfl, Nat.le_succ _, fun _ => rfl⟩

/-- The service handles a release of a customer. -/
theorem Inv.serve_customer_release (hs : Inv s rest) (hget : s.customers[k]? = some c)
    (hphase : c.phase = .monitoring (v + 1)) (hsent : c.sent = [.release v, .monitor (v + 1)])
    (hanswers : c.answers = []) (hnot : k ∉ s.monitors) :
    Inv ((s.put k { c with sent := [.monitor (v + 1)] }).releasehandle (some k) v) rest := by
  obtain ⟨L, hL, hle, -⟩ := hs.following.handed k c hget (v + 1) (by
    unfold Customer.handed
    rw [hanswers, hphase]
    rfl)
  obtain ⟨phase, sent, answers⟩ := c
  cases hphase
  cases hsent
  cases hanswers
  obtain ⟨h, hh, -⟩ := hs.alive hL (mem_rests hget rfl) le_rfl (Nat.le_of_succ_le hle)
  have hsource : ∀ j ∈ some k, j ∉ s.monitors := by
    rintro _ ⟨⟩
    exact hnot
  let s' := s.put k ⟨.monitoring (v + 1), [.monitor (v + 1)], []⟩
  obtain ⟨hhandle, hmonitors, hcustomers⟩ := releasehandle_frame (s := s') hh hsource
  obtain ⟨o, hrefs, ho⟩ := refs_releasehandle (s := s') hh hsource
  have hfollowing : Following s' := by
    refine hs.following.put (.calling (v + 1) rfl rfl rfl hnot) fun u hu => ?_
    cases hu
    exact hs.following.handed k _ hget (v + 1) rfl
  obtain ⟨others, hbefore, hafter⟩ := @rests_put _ rest _ _
    ⟨.monitoring (v + 1), [.monitor (v + 1)], []⟩ hget
  have hcounted := hs.counted
  rw [hL] at hcounted
  refine ⟨?_, ?_, ?_, hfollowing.of_eq hhandle hmonitors hcustomers⟩
  · show Builder.At _ _ _
    rw [hhandle]
    exact At.releasehandle (s := s') hs.builder hh hsource
  · show Counted (s'.releasehandle (some k) v).handle ((s'.releasehandle (some k) v).rests rest) _
    have hrests : (s'.releasehandle (some k) v).rests rest = s'.rests rest := by
      unfold Sheet.rests
      rw [hcustomers]
    rw [hhandle, hrefs, hrests]
    show Counted s.handle _ _
    rw [hL]
    have hadvance := (hcounted.perm hbefore.symm).advance (Nat.lt_of_succ_le hle)
      (congrArg (Option.map Handle.ref) hh) ho
    exact hadvance.perm hafter
  · exact @Collecting.release s' _ _ _ _ s.builder.sent hs.collecting.put hL
      (Nat.le_of_succ_le hle) hh hsource fun _ => rfl

/-- **The service handles a request of a customer.** -/
theorem Inv.serve (hs : Inv s rest) (hget : s.customers[k]? = some c)
    (hsent : c.sent = request :: requests) :
    Inv ((s.put k { c with sent := requests }).dispatch (some k) request) rest := by
  cases hs.following.ok k c hget with
  | asking hphase hsent' hanswers hnot =>
    rw [hsent'] at hsent
    cases hsent
    exact hs.serve_query hget hphase hsent' hanswers hnot
  | calling v hphase hsent' hanswers hnot =>
    rw [hsent'] at hsent
    cases hsent
    exact hs.serve_monitor hget hphase hsent' hanswers hnot
  | releasing v hphase hsent' hanswers hnot =>
    rw [hsent'] at hsent
    cases hsent
    exact hs.serve_customer_release hget hphase hsent' hanswers hnot
  | answered _ _ hsent' | refused _ hsent' | failed _ hsent' | started _ _ hsent'
  | waiting _ _ hsent' | told _ _ hsent' =>
    rw [hsent'] at hsent
    cases hsent

end SkynetEureka.Datasheet
