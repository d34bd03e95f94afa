import SkynetEureka.Clusteragent.Names

/-!
# A registered name is found

A request for a name that is registered all the time is not answered with an error, and what a
request is sent to is the address of its name, or the agent has not heard of the change yet
(`names_found`). One thing is in the way: a request that comes after a change of names waits for an
answer that goes into the table from before.
-/

namespace SkynetEureka.Clusteragent

open Lib Function

/-- A request for a name that is registered does not wait for a query from before a change. -/
def State.Waits (s : State) : Message → Prop
  | .request r => ∀ req ∈ s.requests[r]?, req.registered = true →
    ∀ q ∈ s.inquery req.name, q.self = s.current
  | _ => True

instance (s : State) : (m : Message) → Decidable (s.Waits m)
  | .request r => inferInstanceAs (Decidable (∀ req ∈ s.requests[r]?, req.registered = true →
      ∀ q ∈ s.inquery req.name, q.self = s.current))
  | .namechange _ _ | .response _ _ => inferInstanceAs (Decidable True)

/-- No query from before a change of names is waited for. -/
def State.Current (s : State) : Action → Prop
  | .dispatch => ∀ m ∈ s.mailbox.head?, s.Waits m
  | _ => True

instance (s : State) : (a : Action) → Decidable (s.Current a)
  | .dispatch => inferInstanceAs (Decidable (∀ m ∈ s.mailbox.head?, s.Waits m))
  | .register _ _ | .request _ _ | .queryname => inferInstanceAs (Decidable True)

/-- The name has the address, or the agent will hear that it has it no more. -/
def State.Bound (s : State) (mailbox : List Message) (name : String) (addr : ℕ) : Prop :=
  s.address name = some addr ∨ .namechange name addr ∈ mailbox

/-- The request is for the name, and the name has not been registered all the time. -/
def State.Unregistered (s : State) (name : String) (r : ℕ) : Prop :=
  ∀ req ∈ s.requests[r]?, req.name = name → req.registered = false

/-- What the agent has of a name is right for the messages that come after. -/
structure Found (s : State) : Prop where
  name : ∀ addr name, s.name addr = some name → s.address name = some addr
  registered : ∀ req ∈ s.requests, req.registered = true → s.address req.name ≠ none
  known : ∀ r, .request r ∈ s.mailbox → r < s.requests.length
  cached : ∀ name addr, s.tables s.current name = some addr → s.Bound s.mailbox name addr
  fresh : ∀ self, s.current < self → s.tables self = fun _ => none
  answered : ∀ before name addr after, s.mailbox = before ++ .response name addr :: after →
    (∀ a, addr = some a → s.Bound after name a) ∧
      (addr = none → (∀ r, .request r ∈ before → s.Unregistered name r) ∧
        ∀ q ∈ s.inquery name, s.Unregistered name q.request ∧
          ∀ w ∈ q.waitco, s.Unregistered name w.2)
  inquery : ∀ name q, s.inquery name = some q →
    q.self ≤ s.current ∧ (∃ req, s.requests[q.request]? = some req ∧ req.name = name) ∧
      ∀ w ∈ q.waitco, s.tables w.1 name = none ∧
        ∃ req, s.requests[w.2]? = some req ∧ req.name = name ∧
          (req.registered = true → w.1 = q.self)

/-- What has become of a request is right. -/
def State.Right (s : State) (o : ℕ × Outcome) : Prop :=
  ∃ req addr, s.requests[o.1]? = some req ∧ o.2 = req.finish addr ∧
    (req.registered = true → addr ≠ none) ∧ ∀ a ∈ addr, s.Bound s.mailbox req.name a

section

variable {s : State}

/-- Where a message is when others have been added. -/
theorem append_eq_append_cons {l changes before after : List Message} {m : Message}
    (h : l ++ changes = before ++ m :: after) :
    (∃ after', after = after' ++ changes ∧ l = before ++ m :: after') ∨
      ∃ before', before = l ++ before' ∧ changes = before' ++ m :: after := by
  rcases List.append_eq_append_iff.mp h with ⟨l', hl, hl'⟩ | ⟨l', hl, hl'⟩
  · exact Or.inr ⟨l', hl, hl'⟩
  · cases l' with
    | nil => exact Or.inr ⟨[], by rw [hl]; simp, hl'.symm⟩
    | cons m' l' =>
      obtain ⟨rfl, rfl⟩ := List.cons.inj hl'
      exact Or.inl ⟨l', rfl, hl⟩

/-! ## clusterd -/

/-- Names and messages change, and requests are for names that are registered no more. -/
theorem Found.rebind (h : Found s) {address : String → Option ℕ} {name : ℕ → Option String}
    {changes : List Message} {f : Request → Request}
    (hname : ∀ addr n, name addr = some n → address n = some addr)
    (haddress : ∀ n a, s.address n = some a → address n = some a ∨ .namechange n a ∈ changes)
    (hchanges : ∀ m ∈ changes, ∃ n a, m = .namechange n a)
    (hf : ∀ req, (f req).name = req.name ∧ ((f req).registered = true → req.registered = true))
    (hregistered : ∀ req ∈ s.requests, (f req).registered = true → address req.name ≠ none) :
    Found { s with
      address := address
      name := name
      mailbox := s.mailbox ++ changes
      requests := s.requests.map f } := by
  have hbound : ∀ {mailbox n a}, s.Bound mailbox n a →
      State.Bound { s with
        address := address
        name := name
        mailbox := s.mailbox ++ changes
        requests := s.requests.map f } (mailbox ++ changes) n a := by
    intro mailbox n a hbound
    rcases hbound with ha | hmem
    · exact (haddress n a ha).imp_right fun hmem => List.mem_append_right _ hmem
    · exact Or.inr (List.mem_append_left _ hmem)
  have hunregistered : ∀ {n r}, s.Unregistered n r →
      ∀ req ∈ (s.requests.map f)[r]?, req.name = n → req.registered = false := by
    intro n r hunregistered req hreq hn
    rw [List.getElem?_map] at hreq
    obtain ⟨req', hreq', rfl⟩ := Option.map_eq_some_iff.mp hreq
    have hfalse := hunregistered req' hreq' ((hf req').1.symm.trans hn)
    by_contra hne
    rw [(hf req').2 (Bool.eq_true_of_not_eq_false hne)] at hfalse
    cases hfalse
  constructor
  · exact hname
  · intro req hreq htrue
    obtain ⟨req', hreq', rfl⟩ := List.mem_map.mp hreq
    rw [(hf req').1]
    exact hregistered req' hreq' htrue
  · intro r hr
    show r < (s.requests.map f).length
    rw [List.length_map]
    rcases List.mem_append.mp hr with hr | hr
    · exact h.known r hr
    · obtain ⟨n, a, heq⟩ := hchanges _ hr
      cases heq
  · exact fun n a ha => hbound (h.cached n a ha)
  · exact h.fresh
  · intro before n addr after hmailbox
    -- the response is among the messages from before
    have hsplit : ∃ after', after = after' ++ changes ∧
        s.mailbox = before ++ .response n addr :: after' := by
      rcases append_eq_append_cons hmailbox with hsplit | ⟨before', -, hmem⟩
      · exact hsplit
      · obtain ⟨n', a', heq⟩ := hchanges (.response n addr) (by
          rw [hmem]
          exact List.mem_append_right _ List.mem_cons_self)
        cases heq
    obtain ⟨after', rfl, hmailbox'⟩ := hsplit
    obtain ⟨hsome, hnone⟩ := h.answered before n addr after' hmailbox'
    refine ⟨fun a ha => hbound (hsome a ha), fun heq => ?_⟩
    obtain ⟨hbefore, hinquery⟩ := hnone heq
    refine ⟨fun r hr => hunregistered (hbefore r hr), fun q hq => ?_⟩
    obtain ⟨hrequest, hwaitco⟩ := hinquery q hq
    exact ⟨hunregistered hrequest, fun w hw => hunregistered (hwaitco w hw)⟩
  · intro n q hq
    have hreq : ∀ {r : ℕ} {req}, s.requests[r]? = some req →
        (s.requests.map f)[r]? = some (f req) := by
      intro r req hreq
      rw [List.getElem?_map, hreq]
      rfl
    obtain ⟨hself, ⟨req, hrequest, hn⟩, hwaitco⟩ := h.inquery n q hq
    refine ⟨hself, ⟨f req, hreq hrequest, (hf req).1.trans hn⟩, fun w hw => ?_⟩
    obtain ⟨htable, req', hrequest', hn', hsame⟩ := hwaitco w hw
    exact ⟨htable, f req', hreq hrequest', (hf req').1.trans hn',
      fun htrue => hsame ((hf req').2 htrue)⟩

/-- `command.register` -/
theorem Found.register (h : Found s) (name : String) (addr : ℕ) :
    Found (s.register name addr) := by
  unfold State.register
  split_ifs with hfree
  · cases hold : s.name addr with
    | none =>
      have hrebind : Found { s with
          address := update s.address name (some addr)
          name := update s.name addr (some name)
          mailbox := s.mailbox ++ []
          requests := s.requests.map id } := by
        apply h.rebind
        · intro a n hn
          by_cases heq : a = addr
          · rw [heq, update_self] at hn
            cases hn
            rw [update_self, heq]
          · rw [update_of_ne heq] at hn
            have hne : n ≠ name := by
              rintro rfl
              cases hfree.symm.trans (h.name a n hn)
            rw [update_of_ne hne]
            exact h.name a n hn
        · intro n a ha
          have hne : n ≠ name := by
            rintro rfl
            cases hfree.symm.trans ha
          rw [update_of_ne hne]
          exact Or.inl ha
        · nofun
        · exact fun req => ⟨rfl, id⟩
        · intro req hreq htrue
          have hne : req.name ≠ name := by
            intro heq
            exact h.registered req hreq htrue (heq ▸ hfree)
          rw [update_of_ne hne]
          exact h.registered req hreq htrue
      rwa [List.append_nil, List.map_id] at hrebind
    | some old =>
      have haddr : s.address old = some addr := h.name addr old hold
      have hne : name ≠ old := by
        rintro rfl
        cases hfree.symm.trans haddr
      have hrebind : Found { s with
          address := update (update s.address old none) name (some addr)
          name := update s.name addr (some name)
          mailbox := s.mailbox ++ [.namechange old addr]
          requests := s.requests.map fun req =>
            if req.name = old then { req with registered := false } else req } := by
        apply h.rebind
        · intro a n hn
          by_cases heq : a = addr
          · rw [heq, update_self] at hn
            cases hn
            rw [update_self, heq]
          · rw [update_of_ne heq] at hn
            have hn' := h.name a n hn
            have hne' : n ≠ name := by
              rintro rfl
              cases hfree.symm.trans hn'
            have hne'' : n ≠ old := by
              rintro rfl
              exact heq (Option.some.inj (hn'.symm.trans haddr))
            rw [update_of_ne hne', update_of_ne hne'']
            exact hn'
        · intro n a ha
          by_cases heq : n = old
          · subst heq
            cases haddr.symm.trans ha
            exact Or.inr List.mem_cons_self
          · have hne' : n ≠ name := by
              rintro rfl
              cases hfree.symm.trans ha
            rw [update_of_ne hne', update_of_ne heq]
            exact Or.inl ha
        · intro m hm
          exact ⟨old, addr, List.mem_singleton.mp hm⟩
        · intro req
          split_ifs
          · exact ⟨rfl, nofun⟩
          · exact ⟨rfl, id⟩
        · intro req hreq htrue
          split_ifs at htrue with heq
          have hne' : req.name ≠ name := by
            intro heq'
            exact h.registered req hreq htrue (heq' ▸ hfree)
          rw [update_of_ne hne', update_of_ne heq]
          exact h.registered req hreq htrue
      exact hrebind
  · exact h

/-- clusterd answers a query. -/
theorem Found.queryname (h : Found s) (name : String) (queries : List String) :
    Found { s with
      queries := queries, mailbox := s.mailbox ++ [.response name (s.address name)] } := by
  have hbound : ∀ {mailbox n a}, s.Bound mailbox n a →
      s.Bound (mailbox ++ [.response name (s.address name)]) n a :=
    fun hbound => hbound.imp_right fun hmem => List.mem_append_left _ hmem
  refine { h with known := ?_, cached := ?_, answered := ?_ }
  · intro r hr
    rcases List.mem_append.mp hr with hr | hr
    · exact h.known r hr
    · cases List.mem_singleton.mp hr
  · exact fun n a ha => hbound (h.cached n a ha)
  · intro before n addr after hmailbox
    rcases append_eq_append_cons hmailbox with ⟨after', rfl, hmailbox'⟩ | ⟨before', hbefore, hnew⟩
    · obtain ⟨hsome, hnone⟩ := h.answered before n addr after' hmailbox'
      exact ⟨fun a ha => hbound (hsome a ha), hnone⟩
    · -- the answer is what clusterd has now
      have hlast : before' = [] ∧ after = [] ∧ n = name ∧ addr = s.address name := by
        cases before' with
        | nil =>
          obtain ⟨heq, hafter⟩ := List.cons.inj hnew
          cases heq
          exact ⟨rfl, hafter.symm, rfl, rfl⟩
        | cons m before' => cases before' <;> cases (List.cons.inj hnew).2
      obtain ⟨rfl, rfl, rfl, rfl⟩ := hlast
      refine ⟨fun a ha => Or.inl ha, fun heq => ?_⟩
      have hunregistered : ∀ r, s.Unregistered n r := by
        intro r req hreq hn
        by_contra hne
        refine h.registered req (List.mem_of_getElem? hreq) (Bool.eq_true_of_not_eq_false hne) ?_
        rw [hn]
        exact heq
      exact ⟨fun r _ => hunregistered r, fun q _ => ⟨hunregistered _, fun w _ => hunregistered _⟩⟩

/-- A request comes. -/
theorem Found.request (h : Found s) (name : String) (kind : Kind) :
    Found { s with
      requests := s.requests ++ [⟨name, kind, (s.address name).isSome⟩]
      mailbox := s.mailbox ++ [.request s.requests.length] } := by
  have hbound : ∀ {mailbox n a}, s.Bound mailbox n a →
      s.Bound (mailbox ++ [.request s.requests.length]) n a :=
    fun hbound => hbound.imp_right fun hmem => List.mem_append_left _ hmem
  have hget : ∀ {r : ℕ}, r < s.requests.length →
      (s.requests ++ [⟨name, kind, (s.address name).isSome⟩])[r]? = s.requests[r]? :=
    fun hlt => List.getElem?_append_left hlt
  have hunregistered : ∀ {n r}, r < s.requests.length → s.Unregistered n r →
      ∀ req ∈ (s.requests ++ [⟨name, kind, (s.address name).isSome⟩])[r]?,
        req.name = n → req.registered = false := by
    intro n r hlt hunregistered req hreq hn
    rw [hget hlt] at hreq
    exact hunregistered req hreq hn
  refine { h with registered := ?_, known := ?_, cached := ?_, answered := ?_, inquery := ?_ }
  · intro req hreq htrue
    rcases List.mem_append.mp hreq with hreq | hreq
    · exact h.registered req hreq htrue
    · rw [List.mem_singleton.mp hreq] at htrue ⊢
      exact Option.isSome_iff_ne_none.mp htrue
  · intro r hr
    show r < (s.requests ++ _).length
    rw [List.length_append, List.length_singleton]
    rcases List.mem_append.mp hr with hr | hr
    · exact (h.known r hr).trans (Nat.lt_succ_self _)
    · cases List.mem_singleton.mp hr
      exact Nat.lt_succ_self _
  · exact fun n a ha => hbound (h.cached n a ha)
  · intro before n addr after hmailbox
    rcases append_eq_append_cons hmailbox with ⟨after', rfl, hmailbox'⟩ | ⟨before', hbefore, hnew⟩
    · obtain ⟨hsome, hnone⟩ := h.answered before n addr after' hmailbox'
      refine ⟨fun a ha => hbound (hsome a ha), fun heq => ?_⟩
      obtain ⟨hearlier, hinquery⟩ := hnone heq
      refine ⟨fun r hr => hunregistered (h.known r ?_) (hearlier r hr), fun q hq => ?_⟩
      · rw [hmailbox']
        exact List.mem_append_left _ hr
      · obtain ⟨hrequest, hwaitco⟩ := hinquery q hq
        obtain ⟨-, ⟨req, hreq, -⟩, hknown⟩ := h.inquery n q hq
        refine ⟨hunregistered (List.getElem?_eq_some_iff.mp hreq).1 hrequest, fun w hw => ?_⟩
        obtain ⟨-, req', hreq', -⟩ := hknown w hw
        exact hunregistered (List.getElem?_eq_some_iff.mp hreq').1 (hwaitco w hw)
    · cases before' with
      | nil => cases (List.cons.inj hnew).1
      | cons m before' => cases before' <;> cases (List.cons.inj hnew).2
  · intro n q hq
    obtain ⟨hself, ⟨req, hreq, hn⟩, hwaitco⟩ := h.inquery n q hq
    refine ⟨hself, ⟨req, (hget (List.getElem?_eq_some_iff.mp hreq).1).trans hreq, hn⟩, ?_⟩
    intro w hw
    obtain ⟨htable, req', hreq', hrest⟩ := hwaitco w hw
    exact ⟨htable, req', (hget (List.getElem?_eq_some_iff.mp hreq').1).trans hreq', hrest⟩

/-! ## The agent -/

/-- A message that is no change of names has been taken. -/
theorem Found.take (h : Found s) {m : Message} {mailbox : List Message}
    (hmailbox : s.mailbox = m :: mailbox) (hm : ∀ name addr, m ≠ .namechange name addr) :
    Found { s with mailbox := mailbox } := by
  refine { h with known := ?_, cached := ?_, answered := ?_ }
  · intro r hr
    refine h.known r ?_
    rw [hmailbox]
    exact List.mem_cons_of_mem m hr
  · intro n a ha
    have hbound := h.cached n a ha
    rw [hmailbox] at hbound
    refine hbound.imp_right fun hmem => ?_
    exact (List.mem_cons.mp hmem).resolve_left fun heq => hm n a heq.symm
  · intro before n addr after hsplit
    have hsplit' : s.mailbox = (m :: before) ++ .response n addr :: after :=
      hmailbox.trans (congrArg _ hsplit)
    obtain ⟨hsome, hnone⟩ := h.answered _ n addr after hsplit'
    refine ⟨hsome, fun heq => ?_⟩
    obtain ⟨hearlier, hinquery⟩ := hnone heq
    exact ⟨fun r hr => hearlier r (List.mem_cons_of_mem m hr), hinquery⟩

/-- A request waits for the address. -/
theorem Found.enter (h : Found s) {r : ℕ} {mailbox : List Message} {name : String}
    (hmailbox : s.mailbox = .request r :: mailbox) {q : Inquery} {queries : List String}
    (hq : q.self ≤ s.current ∧ (∃ req, s.requests[q.request]? = some req ∧ req.name = name) ∧
      ∀ w ∈ q.waitco, s.tables w.1 name = none ∧
        ∃ req, s.requests[w.2]? = some req ∧ req.name = name ∧
          (req.registered = true → w.1 = q.self))
    (hold : ∀ r', r' = q.request ∨ r' ∈ q.waitco.map Prod.snd → r' = r ∨
      ∃ q', s.inquery name = some q' ∧ (r' = q'.request ∨ r' ∈ q'.waitco.map Prod.snd)) :
    Found { s with
      mailbox := mailbox, queries := queries, inquery := update s.inquery name (some q) } := by
  have htake := h.take hmailbox nofun
  refine { htake with answered := ?_, inquery := ?_ }
  · intro before n addr after hsplit
    have hsplit' : s.mailbox = (.request r :: before) ++ .response n addr :: after :=
      hmailbox.trans (congrArg _ hsplit)
    obtain ⟨hsome, hnone⟩ := h.answered _ n addr after hsplit'
    refine ⟨hsome, fun heq => ?_⟩
    obtain ⟨hearlier, hinquery⟩ := hnone heq
    refine ⟨fun r' hr' => hearlier r' (List.mem_cons_of_mem _ hr'), fun q' hq' => ?_⟩
    change update s.inquery name (some q) n = some q' at hq'
    by_cases hn : n = name
    · rw [hn, update_self] at hq'
      cases hq'
      subst hn
      have hmember : ∀ r', r' = q.request ∨ r' ∈ q.waitco.map Prod.snd →
          s.Unregistered n r' := by
        intro r' hr'
        rcases hold r' hr' with rfl | ⟨q', hq', hr'⟩
        · exact hearlier r' List.mem_cons_self
        · obtain ⟨hrequest, hwaitco⟩ := hinquery q' hq'
          rcases hr' with rfl | hr'
          · exact hrequest
          · obtain ⟨w, hw, rfl⟩ := List.mem_map.mp hr'
            exact hwaitco w hw
      exact ⟨hmember _ (Or.inl rfl), fun w hw => hmember _ (Or.inr (List.mem_map_of_mem hw))⟩
    · rw [update_of_ne hn] at hq'
      exact hinquery q' hq'
  · intro n q' hq'
    change update s.inquery name (some q) n = some q' at hq'
    by_cases hn : n = name
    · rw [hn, update_self] at hq'
      cases hq'
      rw [hn]
      exact hq
    · rw [update_of_ne hn] at hq'
      exact h.inquery n q' hq'

/-- What a step has made of requests is right. -/
def State.Adds (s s' : State) : Prop :=
  ∃ new, s'.outcomes = s.outcomes ++ new ∧ ∀ o ∈ new, s'.Right o

theorem State.Adds.none {s' : State} (h : s'.outcomes = s.outcomes) : s.Adds s' :=
  ⟨[], by rw [h, List.append_nil], nofun⟩

/-- The agent handles a request. -/
theorem Found.handle_request (h : Found s) {r : ℕ} {mailbox : List Message}
    (hmailbox : s.mailbox = .request r :: mailbox) (hok : s.Waits (.request r)) :
    Found ({ s with mailbox := mailbox }.handle (.request r)) ∧
      s.Adds ({ s with mailbox := mailbox }.handle (.request r)) := by
  have hlt : r < s.requests.length := h.known r (by rw [hmailbox]; exact List.mem_cons_self)
  obtain ⟨req, hreq⟩ : ∃ req, s.requests[r]? = some req := ⟨_, List.getElem?_eq_getElem hlt⟩
  have hheq : State.handle { s with mailbox := mailbox } (.request r) =
      State.request { s with mailbox := mailbox } r req := by
    show (s.requests[r]?.map _).getD _ = _
    rw [hreq]
    rfl
  rw [hheq]
  unfold State.request
  dsimp only
  have htake : Found { s with mailbox := mailbox } := h.take hmailbox nofun
  cases htable : s.tables s.current req.name with
  | some addr =>
    refine ⟨{ htake with }, [(r, req.finish (some addr))], rfl, fun o ho => ?_⟩
    rw [List.mem_singleton.mp ho]
    refine ⟨req, some addr, hreq, rfl, fun _ => nofun, fun a ha => ?_⟩
    cases ha
    exact htake.cached req.name addr htable
  | none =>
    cases hq : s.inquery req.name with
    | none =>
      refine ⟨h.enter hmailbox ⟨le_rfl, ⟨req, hreq, rfl⟩, nofun⟩ ?_, .none rfl⟩
      exact fun r' hr' => Or.inl (hr'.resolve_right nofun)
    | some q =>
      obtain ⟨hself, hrequest, hwaitco⟩ := h.inquery req.name q hq
      refine ⟨h.enter hmailbox ⟨hself, hrequest, fun w hw => ?_⟩ ?_, .none rfl⟩
      · rcases List.mem_append.mp hw with hw | hw
        · exact hwaitco w hw
        · rw [List.mem_singleton.mp hw]
          exact ⟨htable, req, hreq, rfl, fun htrue => (hok req hreq htrue q hq).symm⟩
      · intro r' hr'
        rw [List.map_append] at hr'
        rcases hr' with hr' | hr'
        · exact Or.inr ⟨q, hq, Or.inl hr'⟩
        · rcases List.mem_append.mp hr' with hr' | hr'
          · exact Or.inr ⟨q, hq, Or.inr hr'⟩
          · exact Or.inl (List.mem_singleton.mp hr')

/-- The agent hears of a change. -/
theorem Found.handle_namechange (h : Found s) {old : String} {addr : ℕ} {mailbox : List Message}
    (hmailbox : s.mailbox = .namechange old addr :: mailbox) :
    Found { s with mailbox := mailbox, current := s.current + 1 } := by
  refine { h with known := ?_, cached := ?_, fresh := ?_, answered := ?_, inquery := ?_ }
  · intro r hr
    refine h.known r ?_
    rw [hmailbox]
    exact List.mem_cons_of_mem _ hr
  · intro n a ha
    change s.tables (s.current + 1) n = some a at ha
    rw [h.fresh _ (Nat.lt_succ_self _)] at ha
    cases ha
  · exact fun self hlt => h.fresh self ((Nat.lt_succ_self _).trans hlt)
  · intro before n addr' after hsplit
    have hsplit' : s.mailbox = (.namechange old addr :: before) ++ .response n addr' :: after :=
      hmailbox.trans (congrArg _ hsplit)
    obtain ⟨hsome, hnone⟩ := h.answered _ n addr' after hsplit'
    refine ⟨hsome, fun heq => ?_⟩
    obtain ⟨hearlier, hinquery⟩ := hnone heq
    exact ⟨fun r hr => hearlier r (List.mem_cons_of_mem _ hr), hinquery⟩
  · intro n q hq
    obtain ⟨hself, hrest⟩ := h.inquery n q hq
    exact ⟨hself.trans (Nat.le_succ _), hrest⟩

/-- The address is there. -/
theorem Found.handle_response (h : Found s) {name : String} {addr : Option ℕ}
    {mailbox : List Message} (hmailbox : s.mailbox = .response name addr :: mailbox) :
    Found ({ s with mailbox := mailbox }.handle (.response name addr)) ∧
      s.Adds ({ s with mailbox := mailbox }.handle (.response name addr)) := by
  have htake : Found { s with mailbox := mailbox } := h.take hmailbox nofun
  obtain ⟨hsome, hnone⟩ := h.answered [] name addr mailbox hmailbox
  unfold State.handle
  dsimp only
  cases hq : s.inquery name with
  | none => exact ⟨htake, .none rfl⟩
  | some q =>
    obtain ⟨hself, ⟨req, hreq, hname⟩, hwaitco⟩ := h.inquery name q hq
    -- nothing but the entry of the name changes
    have htables : ∀ self n, (s.resume name addr q).tables self n =
        if self = q.self ∧ n = name ∧ addr.isSome then addr else s.tables self n := by
      intro self n
      show update s.tables q.self _ self n = _
      by_cases hs : self = q.self
      · rw [hs, update_self]
        dsimp only
        by_cases haddr : addr.isSome
        · rw [if_pos haddr]
          by_cases hn : n = name
          · rw [hn, update_self, if_pos ⟨rfl, rfl, haddr⟩]
          · rw [update_of_ne hn, if_neg fun hand => hn hand.2.1]
        · rw [if_neg haddr, if_neg fun hand => haddr hand.2.2]
      · rw [update_of_ne hs, if_neg fun hand => hs hand.1]
    have hinquery : ∀ n q', update s.inquery name none n = some q' →
        n ≠ name ∧ s.inquery n = some q' := by
      intro n q' hq'
      by_cases hn : n = name
      · rw [hn, update_self] at hq'
        cases hq'
      · rw [update_of_ne hn] at hq'
        exact ⟨hn, hq'⟩
    constructor
    · refine { htake with cached := ?_, fresh := ?_, answered := ?_, inquery := ?_ }
      · intro n a ha
        replace ha := (htables s.current n).symm.trans ha
        split_ifs at ha with hnew
        · rw [hnew.2.1]
          exact hsome a ha
        · exact htake.cached n a ha
      · intro self hlt
        funext n
        refine (htables self n).trans ?_
        have hne : self ≠ q.self := by
          change s.current < self at hlt
          omega
        rw [if_neg fun hand => hne hand.1]
        exact congrFun (h.fresh self hlt) n
      · intro before n a after hsplit
        obtain ⟨hsome', hnone'⟩ := htake.answered before n a after hsplit
        refine ⟨hsome', fun heq => ⟨(hnone' heq).1, fun q' hq' => ?_⟩⟩
        exact (hnone' heq).2 q' (hinquery n q' hq').2
      · intro n q' hq'
        obtain ⟨hn, hq''⟩ := hinquery n q' hq'
        obtain ⟨hself', hrequest', hwaitco'⟩ := h.inquery n q' hq''
        refine ⟨hself', hrequest', fun w hw => ?_⟩
        obtain ⟨htable, hrest⟩ := hwaitco' w hw
        refine ⟨(htables w.1 n).trans ?_, hrest⟩
        rw [if_neg fun hand => hn hand.2.1]
        exact htable
    · -- the one that has asked, and the ones that have waited
      have hright : ∀ r a, (∃ req, s.requests[r]? = some req ∧ req.name = name) →
          (∀ a', a = some a' → addr = some a') →
          (∀ req, s.requests[r]? = some req → req.registered = true → a ≠ none) →
          ∀ o ∈ (s.requests[r]?.map fun req => (r, req.finish a)).toList,
            State.Right (State.resume { s with mailbox := mailbox } name addr q) o := by
        intro r a ⟨req, hreq, hname⟩ ha hregistered o ho
        rw [hreq] at ho
        rw [List.mem_singleton.mp ho]
        refine ⟨req, a, hreq, rfl, hregistered req hreq, fun a' ha' => ?_⟩
        rw [hname]
        exact hsome a' (ha a' ha')
      -- a name that is not there has not been registered all the time
      have hthere : ∀ r req, s.requests[r]? = some req → req.name = name →
          (addr = none → s.Unregistered name r) → req.registered = true → addr ≠ none := by
        intro r req hreq hname hunregistered htrue heq
        rw [hunregistered heq req hreq hname] at htrue
        cases htrue
      refine ⟨_, List.append_assoc .., fun o ho => ?_⟩
      rcases List.mem_append.mp ho with ho | ho
      · refine hright q.request addr ⟨req, hreq, hname⟩ (fun a' ha' => ha') ?_ o ho
        intro req' hreq' htrue
        cases hreq.symm.trans hreq'
        exact hthere q.request req hreq hname (fun heq => ((hnone heq).2 q hq).1) htrue
      · obtain ⟨w, hw, ho⟩ := List.mem_flatMap.mp ho
        obtain ⟨htable, req', hreq', hname', hsame⟩ := hwaitco w hw
        have hentry : (State.resume { s with mailbox := mailbox } name addr q).tables w.1 name =
            if w.1 = q.self ∧ name = name ∧ addr.isSome then addr else s.tables w.1 name :=
          htables w.1 name
        refine hright w.2 _ ⟨req', hreq', hname'⟩ ?_ ?_ o ho
        · intro a' ha'
          replace ha' := hentry.symm.trans ha'
          split_ifs at ha' with hnew
          · exact ha'
          · cases htable.symm.trans ha'
        · intro req'' hreq'' htrue
          cases hreq'.symm.trans hreq''
          have hne := hthere w.2 req' hreq' hname' (fun heq => ((hnone heq).2 q hq).2 w hw) htrue
          have hentry' := hentry.trans
            (if_pos ⟨hsame htrue, rfl, Option.isSome_iff_ne_none.mpr hne⟩)
          exact fun heq => hne (hentry'.symm.trans heq)

/-! ## Runs -/

/-- One step. -/
theorem Found.step (h : Found s) {a : Action} (hok : s.Current a) {s' : State}
    (hstep : s.step a = some s') : Found s' ∧ s.Adds s' := by
  cases a with
  | register name addr =>
    cases hstep
    refine ⟨h.register name addr, .none ?_⟩
    unfold State.register
    split_ifs
    · cases s.name addr
      all_goals rfl
    · rfl
  | request name kind =>
    cases hstep
    exact ⟨h.request name kind, .none rfl⟩
  | queryname =>
    rw [State.step] at hstep
    split at hstep
    · cases hstep
    · cases hstep
      exact ⟨h.queryname _ _, .none rfl⟩
  | dispatch =>
    rw [State.step] at hstep
    split at hstep
    · cases hstep
    · rename_i m mailbox hmailbox
      cases hstep
      cases m with
      | request r =>
        refine h.handle_request hmailbox (hok _ ?_)
        rw [hmailbox]
        rfl
      | namechange old addr => exact ⟨h.handle_namechange hmailbox, .none rfl⟩
      | response name addr => exact h.handle_response hmailbox

theorem Found.init : Found .init where
  name := nofun
  registered := nofun
  known := nofun
  cached := nofun
  fresh _ _ := rfl
  answered := by
    intro before name addr after hmailbox
    cases before <;> cases hmailbox
  inquery := nofun

end

theorem State.Right.spec {s : State} {o : ℕ × Outcome} (h : s.Right o) :
    ∃ req, s.requests[o.1]? = some req ∧
      (req.registered = true → ∀ msg, o.2 ≠ .failed msg) ∧
      ∀ a, o.2 = .found a ∨ o.2 = .sent a →
        s.address req.name = some a ∨ .namechange req.name a ∈ s.mailbox := by
  obtain ⟨req, addr, hreq, ho, hregistered, hbound⟩ := h
  refine ⟨req, hreq, fun htrue msg heq => ?_, fun a ha => ?_⟩
  · cases addr with
    | none => exact hregistered htrue rfl
    | some a =>
      rw [ho, Request.finish] at heq
      cases hkind : req.kind
      all_goals
        rw [hkind] at heq
        cases heq
  · refine hbound a ?_
    rw [ho] at ha
    cases addr with
    | none =>
      rw [Request.finish] at ha
      cases hkind : req.kind
      all_goals
        rw [hkind] at ha
        rcases ha with ha | ha
        all_goals cases ha
    | some a' =>
      rw [Request.finish] at ha
      cases hkind : req.kind
      all_goals
        rw [hkind] at ha
        rcases ha with ha | ha
        all_goals cases ha
        rfl

/-- **A registered cluster name is found.** When no request waits for a query from before a change
of names, what a step makes of a request is no error if its name has been registered since it came;
and an address that a request gets is the one of its name, or the agent has still to hear that it is
not. -/
theorem names_found {as : List Action} {a : Action} {s s' : State}
    (h : run State.step .init as = some s) (hstep : s.step a = some s')
    (hok : Guarded State.step State.Current .init (as ++ [a])) :
    ∃ new, s'.outcomes = s.outcomes ++ new ∧ ∀ o ∈ new, ∃ req, s'.requests[o.1]? = some req ∧
      (req.registered = true → ∀ msg, o.2 ≠ .failed msg) ∧
      ∀ a, o.2 = .found a ∨ o.2 = .sent a →
        s'.address req.name = some a ∨ .namechange req.name a ∈ s'.mailbox := by
  obtain ⟨hbefore, hlast⟩ := guarded_append.mp hok
  have hfound : Found s :=
    run_invariant (fun s a s' h hok hstep => (h.step hok hstep).1) Found.init hbefore h
  obtain ⟨new, hnew, hright⟩ := (hfound.step (hlast s h).1 hstep).2
  exact ⟨new, hnew, fun o ho => (hright o ho).spec⟩

/-- The second request waits for the first. -/
theorem names_found_wait :
    ∃ s s' : State, run State.step .init [.register "a" 1, .request "a" .call, .dispatch,
      .request "a" .query, .dispatch, .queryname] = some s ∧ s.step .dispatch = some s' ∧
      s'.outcomes = [(0, .sent 1), (1, .found 1)] ∧
      ∃ new, s'.outcomes = s.outcomes ++ new ∧ ∀ o ∈ new, ∃ req,
        s'.requests[o.1]? = some req ∧
        (req.registered = true → ∀ msg, o.2 ≠ .failed msg) ∧
        ∀ a, o.2 = .found a ∨ o.2 = .sent a →
          s'.address req.name = some a ∨ .namechange req.name a ∈ s'.mailbox := by
  have hok : Guarded State.step State.Current .init ([.register "a" 1, .request "a" .call,
      .dispatch, .request "a" .query, .dispatch, .queryname] ++ [.dispatch]) := by
    decide
  exact ⟨_, _, rfl, rfl, rfl, names_found rfl rfl hok⟩

/-- It waits for a query from before the change of another name, and does not find it. -/
theorem name_not_found :
    ∃ s : State, run State.step .init [.register "a" 1, .register "b" 2, .request "a" .call,
      .dispatch, .register "c" 2, .dispatch, .request "a" .call, .dispatch, .queryname,
      .dispatch] = some s ∧ s.address "a" = some 1 ∧
      s.requests[1]? = some ⟨"a", .call, true⟩ ∧
      s.outcomes = [(0, .sent 1), (1, .failed "Invalid name")] :=
  ⟨_, rfl, rfl, rfl, rfl⟩

end SkynetEureka.Clusteragent
