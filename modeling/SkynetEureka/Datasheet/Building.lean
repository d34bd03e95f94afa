import SkynetEureka.Datasheet.Versions

/-!
# The steps of the builder

A call of the builder, what the service does with its requests, and what the builder does with the
answers. `Alone` and `Passed` are needed for a new version.
-/

namespace SkynetEureka.Datasheet

open Lib Function

variable {s : Sheet} {b b' : Builder} {rest latest : Option ℕ} {v w L : ℕ} {h h' : Handle}
  {source : Option ℕ} {requests : List Request} {answers : List Answer}

namespace Builder

theorem At.of_eq (hat : b.At latest rest) (hcalls : b'.calls = b.calls)
    (hdataset : b'.dataset = b.dataset) (hnext : b'.next = b.next) (hcore : b'.core = b.core)
    (hnews : b'.news = b.news) : b'.At latest rest := by
  cases hat with
  | fresh hc hd hn hr ha =>
    exact .fresh (hcalls.trans hc) (hdataset.trans hd) (hnext.trans hn) (hcore.trans hr)
      (hnews.trans ha)
  | creating hc hd hn hr ha =>
    exact .creating (hcalls.trans hc) (hdataset.trans hd) (hnext.trans hn) (hcore.trans hr)
      (hnews.trans ha)
  | created hc hd hn hr ha =>
    exact .created (hcalls.trans hc) (hdataset.trans hd) (hnext.trans hn) (hcore.trans hr)
      (hnews.trans ha)
  | ready L hc hd hn hr ha =>
    exact .ready L (hcalls.trans hc) (hdataset.trans hd) (hnext.trans hn) (hcore.trans hr)
      (hnews.trans ha)
  | releasing L hc hd hn hr ha =>
    exact .releasing L (hcalls.trans hc) (hdataset.trans hd) (hnext.trans hn) (hcore.trans hr)
      (hnews.trans ha)
  | updating L hc hd hn hr ha =>
    exact .updating L (hcalls.trans hc) (hdataset.trans hd) (hnext.trans hn) (hcore.trans hr)
      (hnews.trans ha)
  | both L hc hd hn hr ha =>
    exact .both L (hcalls.trans hc) (hdataset.trans hd) (hnext.trans hn) (hcore.trans hr)
      (hnews.trans ha)
  | updated L hc hd hn hr ha =>
    exact .updated L (hcalls.trans hc) (hdataset.trans hd) (hnext.trans hn) (hcore.trans hr)
      (hnews.trans ha)

theorem core_concat_update : ({ b with sent := b.sent ++ [.update v] } : Builder).core =
    b.core ++ [.update v] := by
  unfold core
  exact List.filter_append ..

theorem core_concat_release : ({ b with sent := b.sent ++ [.release v] } : Builder).core =
    b.core ++ [.release v] := by
  unfold core
  exact List.filter_append ..

theorem core_concat_collect : ({ b with sent := b.sent ++ [.collect v] } : Builder).core = b.core := by
  unfold core
  rw [List.filter_append]
  exact List.append_nil _

theorem news_concat_updated : ({ b with answers := b.answers ++ [.updated v true] } : Builder).news =
    b.news ++ [.updated v true] := by
  unfold news
  exact List.filter_append ..

theorem news_concat_collected :
    ({ b with answers := b.answers ++ [.collected v] } : Builder).news = b.news := by
  unfold news
  rw [List.filter_append]
  exact List.append_nil _

theorem pending_concat_collected :
    ({ b with answers := b.answers ++ [.collected v] } : Builder).pending w = b.pending w := by
  unfold pending
  rw [List.count_append, List.count_singleton, if_neg (by simp)]
  rfl

theorem pending_concat_updated :
    ({ b with answers := b.answers ++ [.updated v true] } : Builder).pending w =
      b.pending w + if w = v then 1 else 0 := by
  unfold pending
  rw [List.count_append, List.count_singleton]
  by_cases hw : w = v
  · simp [hw]
    omega
  · simp [hw, Ne.symm hw]

theorem pending_concat_sent {request : Request} (hne : request ≠ .collect w) :
    ({ b with sent := b.sent ++ [request] } : Builder).pending w = b.pending w := by
  unfold pending
  rw [List.count_append, List.count_singleton, if_neg (by simpa using hne)]
  rfl

/-- The head of the requests is no longer there. -/
theorem pending_sent (hsent : b.sent = request :: requests) :
    b.pending w = ({ b with sent := requests } : Builder).pending w +
      if request = .collect w then 1 else 0 := by
  unfold pending
  rw [hsent, List.count_cons]
  simp only [beq_iff_eq]
  omega

end Builder

/-! ## Calls -/

/-- A new call -/
theorem Inv.make (hs : Inv s rest) {last : Option ℕ} (hat : (s.make last).builder.At s.handle rest) :
    Inv (s.make last) rest := by
  refine ⟨hat, hs.counted, ?_, hs.following.of_eq rfl rfl rfl⟩
  exact hs.collecting.build (fun w => Builder.pending_concat_sent nofun) hs.collecting.cache
    fun _ hw => hw

theorem Inv.make_none (hs : Inv s rest) (halone : s.builder.calls = [])
    (hnone : s.builder.dataset = none) : Inv (s.make none) rest := by
  have hbuilder := hs.builder
  have hcore : (s.make none).builder.core = s.builder.core ++ [.update s.builder.next] :=
    Builder.core_concat_update
  apply hs.make
  generalize s.handle = latest at hbuilder ⊢
  cases hbuilder with
  | fresh hcalls hdataset hnext hr hnews =>
    rw [hr, hnext] at hcore
    refine .creating ?_ hdataset (congrArg (· + 1) hnext) hcore hnews
    show s.builder.calls ++ [(none, s.builder.next)] = [(none, 0)]
    rw [hcalls, hnext]
    rfl
  | creating hcalls | created hcalls =>
    rw [halone] at hcalls
    cases hcalls
  | ready L _ hdataset | releasing L _ hdataset | updating L _ hdataset | both L _ hdataset
  | updated L _ hdataset =>
    rw [hnone] at hdataset
    cases hdataset

theorem Inv.make_some (hs : Inv s rest) (halone : s.builder.calls = [])
    (hlast : s.builder.dataset = some w) : Inv (s.make (some w)) rest := by
  have hbuilder := hs.builder
  have hcore : (s.make (some w)).builder.core = s.builder.core ++ [.update s.builder.next] :=
    Builder.core_concat_update
  have hcalls' : (s.make (some w)).builder.calls = [(some w, s.builder.next)] := by
    show s.builder.calls ++ [(some w, s.builder.next)] = _
    rw [halone]
    rfl
  apply hs.make
  generalize s.handle = latest at hbuilder ⊢
  cases hbuilder with
  | fresh _ hdataset | creating _ hdataset | created _ hdataset =>
    rw [hlast] at hdataset
    cases hdataset
  | ready L hcalls hdataset hnext hr hnews =>
    rw [hlast] at hdataset
    cases hdataset
    rw [hr, hnext] at hcore
    rw [hnext] at hcalls'
    exact .updating w hcalls' hlast (congrArg (· + 1) hnext) hcore hnews
  | releasing L hcalls hdataset hnext hr hnews =>
    rw [hlast] at hdataset
    cases hdataset
    rw [hr, hnext] at hcore
    rw [hnext] at hcalls'
    exact .both L hcalls' hlast (congrArg (· + 1) hnext) hcore hnews
  | updating L hcalls | both L hcalls | updated L hcalls =>
    rw [halone] at hcalls
    cases hcalls

theorem Inv.fork (hs : Inv s rest) (hfork : v ∈ s.builder.forks) :
    Inv { s with builder := { s.builder with
      forks := s.builder.forks.erase v
      sent := s.builder.sent ++ [.collect v] } } rest := by
  refine ⟨?_, hs.counted, ?_, hs.following.of_eq rfl rfl rfl⟩
  · exact hs.builder.of_eq rfl rfl rfl Builder.core_concat_collect rfl
  · refine hs.collecting.build (fun w => ?_) hs.collecting.cache fun _ hw => hw
    unfold Builder.pending
    dsimp only
    rw [List.count_append, List.count_singleton, List.count_erase]
    by_cases hw : w = v
    · subst hw
      have hpos := List.count_pos_iff.mpr hfork
      simp
      omega
    · have hne : ¬v = w := fun heq => hw heq.symm
      simp [hne]

/-! ## Answers -/

/-- The builder hears that it may forget a version. -/
theorem Inv.built_collected (hs : Inv s rest) (hanswers : s.builder.answers = .collected v :: answers) :
    Inv ({ s with builder := { s.builder with answers := answers } }.built (.collected v)) rest := by
  have hnews : s.builder.news = answers.filter Answer.isUpdated := by
    unfold Builder.news
    rw [hanswers]
    rfl
  refine ⟨hs.builder.of_eq rfl rfl rfl rfl hnews.symm, hs.counted, ?_,
    hs.following.of_eq rfl rfl rfl⟩
  refine hs.collecting.build (fun w => ?_) (fun d hd w hw halive => ?_) fun w hw => ?_
  · unfold Builder.pending
    rw [hanswers]
    simp
  · -- the version is no longer there
    have hgone := hs.collecting.answered v (by rw [hanswers]; exact List.mem_cons_self)
    have hne : w ≠ v := by
      intro heq
      obtain ⟨L, hL, hle, hnone⟩ := (hs.collecting.collected v).mp hgone
      rw [heq] at halive
      exact halive hnone
    exact (List.mem_erase_of_ne hne).mpr (hs.collecting.cache d hd w hw halive)
  · rw [hanswers]
    exact List.mem_cons_of_mem _ hw

theorem pending_forks (hanswers : b.answers = .updated v true :: answers) :
    ({ b with answers := answers, forks := b.forks ++ [v] } : Builder).pending w = b.pending w := by
  unfold Builder.pending
  rw [hanswers, List.count_cons, List.count_append, List.count_singleton]
  by_cases hw : v = w
  · simp [hw]
    omega
  · simp [hw]

theorem built_eq {last : Option ℕ} (hcalls : s.builder.calls = [(last, v)]) :
    s.built (.updated v true) = s.made last v := by
  unfold Sheet.built
  rw [hcalls]
  simp

theorem made_some (hmem : w ∈ s.builder.cache) :
    s.made (some w) v = { s with builder := { s.builder with
      calls := s.builder.calls.erase (some w, v)
      cache := s.builder.cache ++ [v]
      sent := s.builder.sent ++ [.release w]
      dataset := some v
      forks := s.builder.forks ++ [v] } } := by
  unfold Sheet.made
  exact if_pos (List.mem_append_left _ hmem)

/-- The builder hears that a version is there, and releases the version before it. -/
theorem Inv.built_updated {ok : Bool} (hs : Inv s rest)
    (hanswers : s.builder.answers = .updated v ok :: answers) :
    Inv ({ s with builder := { s.builder with answers := answers } }.built (.updated v ok)) rest := by
  have hnews : s.builder.news = .updated v ok :: answers.filter Answer.isUpdated := by
    unfold Builder.news
    rw [hanswers]
    rfl
  have hold : ∀ w, .collected w ∈ answers → .collected w ∈ s.builder.answers := by
    intro w hw
    rw [hanswers]
    exact List.mem_cons_of_mem _ hw
  have hbuilder := hs.builder
  obtain ⟨latest, hlatest⟩ : ∃ latest, s.handle = latest := ⟨_, rfl⟩
  rw [hlatest] at hbuilder
  cases hbuilder with
  | created hcalls hdataset hnext hcore hnews' =>
    rw [hnews', List.cons.injEq] at hnews
    obtain ⟨heq, hnil⟩ := hnews
    cases heq
    have hcache : ∀ d ∈ some 0, ∀ w ≤ d, s.handles w ≠ none → w ∈ s.builder.cache ++ [0] := by
      rintro _ ⟨⟩ w hw -
      exact List.mem_append_right _ (List.mem_singleton.mpr (Nat.le_zero.mp hw))
    have hcalls' : s.builder.calls.erase (none, 0) = [] := by
      rw [hcalls]
      rfl
    have hmade := built_eq (s := { s with builder := { s.builder with answers := answers } }) hcalls
    rw [hmade]
    refine ⟨?_, hs.counted, ?_, hs.following.of_eq rfl rfl rfl⟩
    · show Builder.At _ s.handle _
      rw [hlatest]
      exact .ready 0 hcalls' rfl hnext hcore hnil.symm
    · exact hs.collecting.build (fun w => pending_forks hanswers) hcache hold
  | updated L hcalls hdataset hnext hcore hnews' =>
    rw [hnews', List.cons.injEq] at hnews
    obtain ⟨heq, hnil⟩ := hnews
    cases heq
    have hthere : L ∈ s.builder.cache := by
      obtain ⟨h, hh, -⟩ := hs.alive hlatest (List.mem_append_left _ List.mem_cons_self) le_rfl
        (Nat.le_succ L)
      refine hs.collecting.cache L hdataset L le_rfl ?_
      rw [hh]
      exact Option.some_ne_none h
    have hcache : ∀ d ∈ some (L + 1), ∀ w ≤ d, s.handles w ≠ none →
        w ∈ s.builder.cache ++ [L + 1] := by
      rintro _ ⟨⟩ w hw hhandle
      rcases Nat.lt_or_eq_of_le hw with hlt | heq
      · exact List.mem_append_left _
          (hs.collecting.cache L hdataset w (Nat.lt_succ_iff.mp hlt) hhandle)
      · exact List.mem_append_right _ (List.mem_singleton.mpr heq)
    have hcalls' : s.builder.calls.erase (some L, L + 1) = [] := by
      rw [hcalls]
      simp
    have hcore' : ({ s.builder with sent := s.builder.sent ++ [.release L] } : Builder).core =
        [.release L] := by
      rw [Builder.core_concat_release, hcore]
      rfl
    have hmade := built_eq (s := { s with builder := { s.builder with answers := answers } }) hcalls
    have hmade' := made_some (s := { s with builder := { s.builder with answers := answers } })
      (v := L + 1) hthere
    rw [hmade, hmade']
    refine ⟨?_, hs.counted, ?_, hs.following.of_eq rfl rfl rfl⟩
    · show Builder.At _ s.handle _
      rw [hlatest]
      exact .releasing L hcalls' rfl hnext hcore' hnil.symm
    · refine hs.collecting.build (fun w => ?_) hcache hold
      have hforks := pending_forks (w := w) hanswers
      rw [← hforks]
      exact Builder.pending_concat_sent (b := { s.builder with
        answers := answers
        forks := s.builder.forks ++ [L + 1] }) nofun
  | fresh _ _ _ _ hnews' | creating _ _ _ _ hnews' | ready _ _ _ _ _ hnews'
  | releasing _ _ _ _ _ hnews' | updating _ _ _ _ _ hnews' | both _ _ _ _ _ hnews' =>
    rw [hnews'] at hnews
    cases hnews

/-! ## The service -/

/-- A handle changes; `requests` are those of the builder that are left. -/
theorem Collecting.set (hs : Collecting s) (hh : s.handles v = some h)
    (hpending : ∀ w, ({ s.builder with sent := requests } : Builder).pending w =
      if w = v then (!h'.collect).toNat else s.builder.pending w)
    (hkept : h'.collect = true → h'.ref ≠ 0) :
    Collecting { s with
      builder := { s.builder with sent := requests }
      handles := update s.handles v (some h') } := by
  have hnone : ∀ w, update s.handles v (some h') w = none ↔ s.handles w = none := by
    intro w
    by_cases hw : w = v
    · subst hw
      rw [update_self, hh]
      simp
    · rw [update_of_ne hw]
  refine ⟨fun w => ?_, fun w h₁ hw hcollect => ?_, fun w => ?_, fun d hd w hw halive => ?_, hs.answered⟩
  · refine (hpending w).trans ?_
    show _ = ((update s.handles v (some h') w).any _).toNat
    by_cases hw : w = v
    · subst hw
      rw [if_pos rfl, update_self]
      rfl
    · rw [if_neg hw, update_of_ne hw]
      exact hs.pending w
  · change update s.handles v (some h') w = some h₁ at hw
    by_cases heq : w = v
    · subst heq
      rw [update_self] at hw
      cases hw
      exact hkept hcollect
    · rw [update_of_ne heq] at hw
      exact hs.kept w h₁ hw hcollect
  · show w ∈ s.collected ↔ ∃ L ∈ s.handle, w ≤ L ∧ update s.handles v (some h') w = none
    rw [hnone]
    exact hs.collected w
  · exact hs.cache d hd w hw fun hw' => halive ((hnone w).mpr hw')

/-- A handle is forgotten. -/
theorem Collecting.forget (hs : Collecting s) (hL : s.handle = some L) (hle : v ≤ L)
    (hpending : ∀ w, ({ s.builder with sent := requests } : Builder).pending w =
      if w = v then 0 else s.builder.pending w) :
    Collecting ({ s with builder := { s.builder with sent := requests } }.forget v) := by
  refine ⟨fun w => ?_, fun w h₁ hw hcollect => ?_, fun w => ?_, fun d hd w hw halive => ?_,
    fun w hw => ?_⟩
  · refine (Builder.pending_concat_collected (b := { s.builder with sent := requests })).trans ?_
    refine (hpending w).trans ?_
    show _ = ((update s.handles v none w).any _).toNat
    by_cases hw : w = v
    · subst hw
      rw [if_pos rfl, update_self]
      rfl
    · rw [if_neg hw, update_of_ne hw]
      exact hs.pending w
  · change update s.handles v none w = some h₁ at hw
    by_cases heq : w = v
    · subst heq
      rw [update_self] at hw
      cases hw
    · rw [update_of_ne heq] at hw
      exact hs.kept w h₁ hw hcollect
  · show w ∈ s.collected ++ [v] ↔ ∃ L ∈ s.handle, w ≤ L ∧ update s.handles v none w = none
    rw [List.mem_append, List.mem_singleton]
    by_cases heq : w = v
    · subst heq
      rw [update_self]
      simp [hL, hle]
    · rw [update_of_ne heq, hs.collected w]
      simp [heq]
  · refine hs.cache d hd w hw fun hnone => halive ?_
    show update s.handles v none w = none
    by_cases heq : w = v
    · rw [heq, update_self]
    · rw [update_of_ne heq]
      exact hnone
  · show w ∈ s.collected ++ [v]
    rcases List.mem_append.mp hw with hold | hnew
    · exact List.mem_append_left _ (hs.answered w hold)
    · rw [List.mem_singleton] at hnew
      cases hnew
      exact List.mem_append_right _ List.mem_cons_self

theorem releasehandle_eq (hh : s.handles v = some h) (hsource : ∀ k ∈ source, k ∉ s.monitors) :
    s.releasehandle source v = if h.ref - 1 = 0 ∧ h.collect = true then s.forget v
      else { s with handles := update s.handles v (some { h with ref := h.ref - 1 }) } := by
  have hfilter : (s.monitors.filter fun k => some k ≠ source) = s.monitors := by
    refine List.filter_eq_self.mpr fun k hk => decide_eq_true fun heq => ?_
    exact hsource k heq.symm hk
  unfold Sheet.releasehandle
  rw [hh]
  by_cases hlast : h.ref - 1 = 0 ∧ h.collect = true
  · simp only [if_pos hlast]
    show { s.forget v with monitors := s.monitors.filter fun k => some k ≠ source } = s.forget v
    rw [hfilter]
    rfl
  · simp only [if_neg hlast]
    rw [hfilter]

/-- A version is given back: by the builder, which has `requests` left then, or by a customer. -/
theorem Collecting.release (hs : Collecting s) (hL : s.handle = some L) (hle : v ≤ L)
    (hh : s.handles v = some h) (hsource : ∀ k ∈ source, k ∉ s.monitors)
    (hpending : ∀ w, ({ s.builder with sent := requests } : Builder).pending w =
      s.builder.pending w) :
    Collecting ({ s with builder := { s.builder with sent := requests } }.releasehandle source v) := by
  have hall := hs.pending v
  rw [hh] at hall
  rw [releasehandle_eq (s := { s with builder := { s.builder with sent := requests } }) hh hsource]
  by_cases hlast : h.ref - 1 = 0 ∧ h.collect = true
  · rw [if_pos hlast]
    refine hs.forget hL hle fun w => ?_
    by_cases hw : w = v
    · subst hw
      rw [if_pos rfl, hpending, hall]
      simp [hlast.2]
    · rw [if_neg hw]
      exact hpending w
  · rw [if_neg hlast]
    refine hs.set hh (fun w => ?_) fun hcollect hzero => hlast ⟨hzero, hcollect⟩
    by_cases hw : w = v
    · subst hw
      rw [if_pos rfl, hpending, hall]
      rfl
    · rw [if_neg hw]
      exact hpending w

/-- What is left of a reference count -/
theorem refs_releasehandle (hh : s.handles v = some h) (hsource : ∀ k ∈ source, k ∉ s.monitors) :
    ∃ o, refs (s.releasehandle source v).handles = update (refs s.handles) v o ∧
      (o = some (h.ref - 1) ∨ o = none ∧ h.ref - 1 = 0) := by
  rw [releasehandle_eq hh hsource]
  by_cases hlast : h.ref - 1 = 0 ∧ h.collect = true
  · rw [if_pos hlast]
    exact ⟨none, refs_update, .inr ⟨rfl, hlast.1⟩⟩
  · rw [if_neg hlast]
    exact ⟨some (h.ref - 1), refs_update, .inl rfl⟩

/-- What a release leaves as it is -/
theorem releasehandle_frame (hh : s.handles v = some h) (hsource : ∀ k ∈ source, k ∉ s.monitors) :
    (s.releasehandle source v).handle = s.handle ∧
      (s.releasehandle source v).monitors = s.monitors ∧
      (s.releasehandle source v).customers = s.customers := by
  rw [releasehandle_eq hh hsource]
  split <;> exact ⟨rfl, rfl, rfl⟩

theorem At.releasehandle (hat : s.builder.At latest rest) (hh : s.handles v = some h)
    (hsource : ∀ k ∈ source, k ∉ s.monitors) :
    (s.releasehandle source v).builder.At latest rest := by
  rw [releasehandle_eq hh hsource]
  split
  · exact hat.of_eq rfl rfl rfl rfl Builder.news_concat_collected
  · exact hat

/-- The service handles a release of the builder. -/
theorem Inv.serve_release (hs : Inv s (some v)) (hsent : s.builder.sent = .release v :: requests)
    (hL : s.handle = some L) (hlt : v < L)
    (hat : ({ s.builder with sent := requests } : Builder).At (some L) (some (v + 1))) :
    Inv ({ s with builder := { s.builder with sent := requests } }.releasehandle none v)
      (some (v + 1)) := by
  obtain ⟨h, hh, -⟩ := hs.alive hL (List.mem_append_left _ List.mem_cons_self) le_rfl hlt.le
  have hsource : ∀ k ∈ (none : Option ℕ), k ∉ s.monitors := nofun
  obtain ⟨hhandle, hmonitors, hcustomers⟩ := releasehandle_frame
    (s := { s with builder := { s.builder with sent := requests } }) hh hsource
  obtain ⟨o, hrefs, ho⟩ := refs_releasehandle
    (s := { s with builder := { s.builder with sent := requests } }) hh hsource
  have hpending : ∀ w, ({ s.builder with sent := requests } : Builder).pending w =
      s.builder.pending w := by
    intro w
    rw [Builder.pending_sent hsent, if_neg nofun]
    exact (Nat.add_zero _).symm
  refine ⟨?_, ?_, hs.collecting.release hL hlt.le hh hsource hpending,
    hs.following.of_eq hhandle hmonitors hcustomers⟩
  · rw [hhandle]
    change Builder.At _ s.handle _
    rw [hL]
    exact At.releasehandle hat hh hsource
  · have hcounted := hs.counted
    rw [hL] at hcounted
    rw [hhandle, hrefs]
    unfold Sheet.rests
    rw [hcustomers]
    change Counted s.handle _ _
    rw [hL]
    exact hcounted.advance hlt (congrArg (Option.map Handle.ref) hh) ho

/-- The service collects a version, or will do so with the last release. -/
theorem Inv.serve_collect (hs : Inv s rest) (hsent : s.builder.sent = .collect v :: requests) :
    Inv ({ s with builder := { s.builder with sent := requests } }.collect v) rest := by
  have hpending : ∀ w, s.builder.pending w =
      ({ s.builder with sent := requests } : Builder).pending w + if w = v then 1 else 0 := by
    intro w
    rw [Builder.pending_sent hsent]
    simp only [Request.collect.injEq, eq_comm]
  have hcore : ({ s.builder with sent := requests } : Builder).core = s.builder.core := by
    unfold Builder.core
    rw [hsent]
    rfl
  have hv := (hpending v).symm.trans (hs.collecting.pending v)
  rw [if_pos rfl] at hv
  cases hh : s.handles v with
  | none =>
    rw [hh] at hv
    cases hv
  | some h =>
    rw [hh] at hv
    have hcollect : h.collect = false := by
      cases hc : h.collect with
      | false => rfl
      | true =>
        rw [Option.any_some, hc] at hv
        cases hv
    have hzero : ({ s.builder with sent := requests } : Builder).pending v = 0 := by
      rw [Option.any_some, hcollect] at hv
      exact Nat.succ.inj hv
    have hothers : ∀ w, ({ s.builder with sent := requests } : Builder).pending w =
        if w = v then 0 else s.builder.pending w := by
      intro w
      by_cases hw : w = v
      · rw [if_pos hw, hw, hzero]
      · rw [if_neg hw, hpending w, if_neg hw]
        rfl
    obtain ⟨L, hL, hle⟩ : ∃ L, s.handle = some L ∧ v ≤ L := by
      by_contra hlater
      have hnone := hs.counted.later v fun L hL => by
        by_contra hle
        exact hlater ⟨L, hL, Nat.not_lt.mp hle⟩
      unfold refs at hnone
      rw [hh] at hnone
      cases hnone
    by_cases hlast : h.ref = 0
    · have hcollected : Sheet.collect { s with builder := { s.builder with sent := requests } } v =
          Sheet.forget { s with builder := { s.builder with sent := requests } } v := by
        unfold Sheet.collect
        dsimp only
        rw [hh]
        exact if_pos hlast
      rw [hcollected]
      refine ⟨?_, ?_, hs.collecting.forget hL hle hothers, hs.following.of_eq rfl rfl rfl⟩
      · exact hs.builder.of_eq rfl rfl rfl hcore Builder.news_concat_collected
      · show Counted s.handle (s.rests rest) (refs (update s.handles v none))
        rw [refs_update]
        refine hs.counted.forget ?_
        unfold refs
        rw [hh, Option.map_some, hlast]
    · have hcollected : Sheet.collect { s with builder := { s.builder with sent := requests } } v =
          { s with
            builder := { s.builder with sent := requests }
            handles := update s.handles v (some { h with collect := true }) } := by
        unfold Sheet.collect
        dsimp only
        rw [hh]
        dsimp only
        rw [if_neg hlast, hcollect]
        rfl
      rw [hcollected]
      have hkept : ({ h with collect := true } : Handle).collect = true →
          ({ h with collect := true } : Handle).ref ≠ 0 := fun _ => hlast
      refine ⟨?_, ?_, ?_, hs.following.of_eq rfl rfl rfl⟩
      · exact hs.builder.of_eq rfl rfl rfl hcore rfl
      · show Counted s.handle (s.rests rest) (refs (update s.handles v _))
        rw [refs_update]
        have hsame : refs s.handles v = some h.ref := congrArg (Option.map Handle.ref) hh
        rw [Option.map_some, ← hsame, update_eq_self]
        exact hs.counted
      · exact hs.collecting.set hh hothers hkept

/-! ### A new version -/

theorem Collecting.renew {monitors : List ℕ} {customers : List Customer} {n : ℤ} (hs : Collecting s)
    (hnew : s.handles v = none) (hbelow : ∀ w, (∃ L ∈ s.handle, w ≤ L) ↔ w < v)
    (hdataset : ∀ d ∈ s.builder.dataset, d < v) (hsent : s.builder.sent = .update v :: requests) :
    Collecting { s with
      handle := some v
      handles := update s.handles v (some ⟨n, false⟩)
      monitors := monitors
      customers := customers
      builder := { s.builder with
        sent := requests
        answers := s.builder.answers ++ [.updated v true] } } := by
  have hhandles : ∀ w, update s.handles v (some ⟨n, false⟩) w = none ↔ w ≠ v ∧ s.handles w = none := by
    intro w
    by_cases hw : w = v
    · subst hw
      simp
    · rw [update_of_ne hw]
      exact ⟨fun hnone => ⟨hw, hnone⟩, And.right⟩
  refine ⟨fun w => ?_, fun w h hw hcollect => ?_, fun w => ?_, fun d hd w hw hhandle => ?_,
    fun w hw => ?_⟩
  · refine (Builder.pending_concat_updated (b := { s.builder with sent := requests })).trans ?_
    have hpending := Builder.pending_sent (w := w) hsent
    rw [if_neg nofun, hs.pending] at hpending
    show _ = ((update s.handles v (some ⟨n, false⟩) w).any _).toNat
    by_cases hw : w = v
    · subst hw
      rw [hnew] at hpending
      rw [if_pos rfl, update_self]
      exact congrArg (· + 1) hpending.symm
    · rw [if_neg hw, update_of_ne hw]
      exact hpending.symm
  · change update s.handles v (some ⟨n, false⟩) w = some h at hw
    by_cases heq : w = v
    · subst heq
      rw [update_self] at hw
      cases hw
      cases hcollect
    · rw [update_of_ne heq] at hw
      exact hs.kept w h hw hcollect
  · show w ∈ s.collected ↔ ∃ L ∈ some v, w ≤ L ∧ update s.handles v (some ⟨n, false⟩) w = none
    rw [hs.collected w, hhandles]
    constructor
    · rintro ⟨L, hL, hle, hnone⟩
      have hlt := (hbelow w).mp ⟨L, hL, hle⟩
      exact ⟨v, rfl, hlt.le, hlt.ne, hnone⟩
    · rintro ⟨_, ⟨⟩, hle, hne, hnone⟩
      obtain ⟨L, hL, hle'⟩ := (hbelow w).mpr (lt_of_le_of_ne hle hne)
      exact ⟨L, hL, hle', hnone⟩
  · refine hs.cache d hd w hw fun hnone => hhandle ((hhandles w).mpr ⟨?_, hnone⟩)
    exact (hw.trans_lt (hdataset d hd)).ne
  · rcases List.mem_append.mp hw with hold | hlast
    · exact hs.answered w hold
    · rw [List.mem_singleton] at hlast
      cases hlast

/-- The service gets the first version. -/
theorem Inv.serve_create (hs : Inv s none) (hnone : s.handle = none)
    (hdataset : s.builder.dataset = none) (hsent : s.builder.sent = .update 0 :: requests)
    (hat : ({ s.builder with
      sent := requests
      answers := s.builder.answers ++ [.updated 0 true] } : Builder).At (some 0) (some 0)) :
    Inv ({ s with builder := { s.builder with sent := requests } }.update 0) (some 0) := by
  have hupdate : Sheet.update { s with builder := { s.builder with sent := requests } } 0 =
      { s with
        handle := some 0
        handles := Function.update s.handles 0 (some ⟨1, false⟩)
        builder := { s.builder with
          sent := requests
          answers := s.builder.answers ++ [.updated 0 true] } } := by
    unfold Sheet.update
    dsimp only
    rw [hnone]
    rfl
  have hold : s.handles 0 = none :=
    Option.map_eq_none_iff.mp (hs.counted.later 0 (by rw [hnone]; nofun))
  have hcounted := hs.counted
  rw [hnone] at hcounted
  rw [hupdate]
  refine ⟨hat, ?_, ?_, ⟨hs.following.ok, fun k c hc v hv => ?_, hs.following.monitors⟩⟩
  · show Counted (some 0) (0 :: s.rests none) (refs (Function.update s.handles 0 (some ⟨1, false⟩)))
    rw [refs_update]
    exact hcounted.create
  · refine hs.collecting.renew hold (fun w => ?_) (by rw [hdataset]; nofun) hsent
    rw [hnone]
    constructor
    · rintro ⟨L, hL, -⟩
      cases hL
    · intro hw
      cases hw
  · -- nobody has a version yet
    obtain ⟨L, hL, -⟩ := hs.following.handed k c hc v hv
    rw [hnone] at hL
    cases hL

/-- A customer is told the new version, if it has asked for that. -/
def tell (monitors : List ℕ) (handle k : ℕ) (c : Customer) : Customer :=
  if k ∈ monitors then { c with answers := c.answers ++ [some handle] } else c

/-- A customer that waits at the latest version is told the next one. -/
theorem Following.tell (hs : Following s) (hL : s.handle = some L)
    (hpassed : ∀ c ∈ s.customers, ∀ w ∈ c.handed, s.handle = some w)
    {k : ℕ} {c : Customer} (hc : s.customers[k]? = some c) :
    (tell s.monitors (L + 1) k c).Ok False ∧ (tell s.monitors (L + 1) k c).rest = c.rest ∧
      ∀ v ∈ (tell s.monitors (L + 1) k c).handed, v ≤ L + 1 ∧ L ≤ v := by
  unfold Datasheet.tell
  have hok := hs.ok k c hc
  by_cases hk : k ∈ s.monitors
  · rw [if_pos hk]
    cases hok with
    | waiting v hphase hsent hanswers =>
      have hhanded : v ∈ c.handed := by
        unfold Customer.handed
        rw [hanswers, hphase]
        rfl
      have hv := hpassed c (List.mem_of_getElem? hc) v hhanded
      rw [hL] at hv
      cases hv
      refine ⟨.told L hphase hsent ?_ not_false, ?_, fun v hv => ?_⟩
      · show c.answers ++ [some (L + 1)] = _
        rw [hanswers]
        rfl
      · unfold Customer.rest
        dsimp only
        rw [hsent, hphase]
        rfl
      · unfold Customer.handed at hv
        rw [List.getLast?_concat] at hv
        cases hv
        exact ⟨le_rfl, Nat.le_succ L⟩
    | asking _ _ _ hnot | answered _ _ _ _ hnot | refused _ _ _ hnot | failed _ _ _ hnot
    | started _ _ _ _ hnot | calling _ _ _ _ hnot | releasing _ _ _ _ hnot | told _ _ _ _ hnot =>
      exact absurd hk hnot
  · rw [if_neg hk]
    refine ⟨?_, rfl, fun v hv => ?_⟩
    · have hfalse : (k ∈ s.monitors) = False := eq_false hk
      rw [hfalse] at hok
      exact hok
    · have hv := hpassed c (List.mem_of_getElem? hc) v hv
      rw [hL] at hv
      cases hv
      exact ⟨Nat.le_succ L, le_rfl⟩

/-- The service gets the next version. -/
theorem Inv.serve_extend (hs : Inv s (some r)) (hL : s.handle = some L)
    (hpassed : ∀ c ∈ s.customers, ∀ w ∈ c.handed, s.handle = some w)
    (hdataset : s.builder.dataset = some L) (hsent : s.builder.sent = .update (L + 1) :: requests)
    (hat : ({ s.builder with
      sent := requests
      answers := s.builder.answers ++ [.updated (L + 1) true] } : Builder).At (some (L + 1)) (some r)) :
    Inv ({ s with builder := { s.builder with sent := requests } }.update (L + 1)) (some r) := by
  obtain ⟨h, hh, -⟩ := hs.latest hL
  have hupdate : Sheet.update { s with builder := { s.builder with sent := requests } } (L + 1) =
      { s with
        handle := some (L + 1)
        handles := Function.update s.handles (L + 1) (some ⟨h.ref, false⟩)
        monitors := []
        customers := s.customers.mapIdx (tell s.monitors (L + 1))
        builder := { s.builder with
          sent := requests
          answers := s.builder.answers ++ [.updated (L + 1) true] } } := by
    unfold Sheet.update
    dsimp only
    rw [hL]
    dsimp only
    rw [hh]
    rfl
  have hcounted := hs.counted
  rw [hL] at hcounted
  have hnew : s.handles (L + 1) = none := by
    refine Option.map_eq_none_iff.mp (hcounted.later (L + 1) ?_)
    rintro _ ⟨⟩
    exact Nat.lt_succ_self L
  have hget : ∀ (k : ℕ) (c : Customer), (s.customers.mapIdx (tell s.monitors (L + 1)))[k]? = some c →
      ∃ c', s.customers[k]? = some c' ∧ tell s.monitors (L + 1) k c' = c := by
    intro k c hc
    rw [List.getElem?_mapIdx] at hc
    exact Option.map_eq_some_iff.mp hc
  have hrests : (s.customers.mapIdx (tell s.monitors (L + 1))).filterMap Customer.rest =
      s.customers.filterMap Customer.rest :=
    filterMap_mapIdx fun k c hc => (hs.following.tell hL hpassed hc).2.1
  rw [hupdate]
  refine ⟨hat, ?_, ?_, ⟨fun k c hc => ?_, fun k c hc v hv => ?_, nofun⟩⟩
  · show Counted (some (L + 1)) ((some r).toList ++ List.filterMap Customer.rest _)
      (refs (Function.update s.handles (L + 1) (some ⟨h.ref, false⟩)))
    rw [refs_update, hrests]
    exact hcounted.extend (congrArg (Option.map Handle.ref) hh)
  · refine hs.collecting.renew hnew (fun w => ?_) (fun d hd => ?_) hsent
    · rw [hL]
      simp
    · rw [hdataset] at hd
      cases hd
      exact Nat.lt_succ_self L
  · obtain ⟨c', hc', rfl⟩ := hget k c hc
    have htell := (hs.following.tell hL hpassed hc').1
    have hnot : (k ∈ ([] : List ℕ)) = False := eq_false List.not_mem_nil
    show Customer.Ok _ (k ∈ [])
    rw [hnot]
    exact htell
  · obtain ⟨c', hc', rfl⟩ := hget k c hc
    obtain ⟨hle, hge⟩ := (hs.following.tell hL hpassed hc').2.2 v hv
    exact ⟨L + 1, rfl, hle, Nat.succ_le_succ hge, fun hk => (List.not_mem_nil hk).elim⟩

/-- **The service handles a request of the builder.** -/
theorem Inv.serveBuilder {request : Request} (hs : Inv s rest)
    (hsent : s.builder.sent = request :: requests) (hpassed : Passed s .serveBuilder) :
    ∃ rest', Inv ({ s with builder := { s.builder with sent := requests } }.dispatch none request)
      rest' := by
  have hcore : request.isCollect = false → s.builder.core =
      request :: ({ s.builder with sent := requests } : Builder).core := by
    intro hrequest
    unfold Builder.core
    rw [hsent, List.filter_cons_of_pos (by rw [hrequest]; rfl)]
  cases request with
  | collect v => exact ⟨rest, hs.serve_collect hsent⟩
  | query | monitor v | update v | release v =>
    have hcore := hcore rfl
    have hbuilder := hs.builder
    obtain ⟨latest, hlatest⟩ : ∃ latest, s.handle = latest := ⟨_, rfl⟩
    rw [hlatest] at hbuilder
    cases hbuilder with
    | fresh _ _ _ hr | created _ _ _ hr | ready _ _ _ _ hr | updated _ _ _ _ hr =>
      rw [hr] at hcore
      cases hcore
    | creating hcalls hdataset hnext hr hnews =>
      rw [hr, List.cons.injEq] at hcore
      obtain ⟨heq, hnil⟩ := hcore
      cases heq <;>
      · refine ⟨some 0, hs.serve_create hlatest hdataset hsent ?_⟩
        refine .created hcalls hdataset hnext hnil.symm ?_
        rw [Builder.news_concat_updated (b := { s.builder with sent := requests })]
        exact congrArg (· ++ [Answer.updated 0 true]) hnews
    | releasing L hcalls hdataset hnext hr hnews =>
      rw [hr, List.cons.injEq] at hcore
      obtain ⟨heq, hnil⟩ := hcore
      cases heq <;>
      exact ⟨some (v + 1), hs.serve_release hsent hlatest (Nat.lt_succ_self v)
        (.ready (v + 1) hcalls hdataset hnext hnil.symm hnews)⟩
    | updating L hcalls hdataset hnext hr hnews =>
      rw [hr, List.cons.injEq] at hcore
      obtain ⟨heq, hnil⟩ := hcore
      cases heq <;>
      · refine ⟨some L, hs.serve_extend hlatest ?_ hdataset hsent ?_⟩
        · unfold Passed at hpassed
          rw [hsent] at hpassed
          exact hpassed
        · refine .updated L hcalls hdataset hnext hnil.symm ?_
          rw [Builder.news_concat_updated (b := { s.builder with sent := requests })]
          exact congrArg (· ++ [Answer.updated (L + 1) true]) hnews
    | both L hcalls hdataset hnext hr hnews =>
      rw [hr, List.cons.injEq] at hcore
      obtain ⟨heq, hrest⟩ := hcore
      cases heq <;>
      exact ⟨some (v + 1), hs.serve_release hsent hlatest (Nat.lt_succ_self v)
        (.updating (v + 1) hcalls hdataset hnext hrest.symm hnews)⟩

end SkynetEureka.Datasheet
