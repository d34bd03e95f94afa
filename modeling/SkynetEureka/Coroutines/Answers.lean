import SkynetEureka.Coroutines.Moves

/-!
# Answers to requests

No request is answered twice (`requests_answered_once`). A request is in one hand at a time: a
coroutine with its session, or a closure of `skynet.response`. There are three ways for a hand to
answer a request that has its answer: a coroutine goes on for which `skynet.exit` has answered, the
`pack` of a closure returns when the closure has answered in between, and an ERROR message is
handled by a coroutine which was resumed in the pool, and raises.
-/

namespace SkynetEureka.Coroutines

open Lib Function

/-- The coroutine that runs, or has raised. -/
def Control.coroutine? : Control → Option Co
  | .running co _ | .crashed co => some co
  | _ => none

/-- None of the three happens. -/
def Service.Settled (s : Service) : Act → Prop
  | .ret | .newResponse | .crash _ => ∀ co ∈ s.control.coroutine?, co ∈ s.reported →
    s.sessionCoroutineId.get co = none
  | .exit => ∀ co ∈ s.reported, s.sessionCoroutineId.get co = none
  | .packed => ∀ co ∈ s.control.coroutine?, ∀ k ∈ s.packed? co, ∀ r ∈ s.responses[k]?,
    r.pack = true
  | .error session _ _ reuse => session ≠ 0 → ∀ co ∈ reuse, s.status co = .pooled
  | _ => True

instance (s : Service) (a : Act) : Decidable (s.Settled a) :=
  match a with
  | .ret | .newResponse | .crash _ => inferInstanceAs (Decidable (∀ co ∈ s.control.coroutine?,
    co ∈ s.reported → s.sessionCoroutineId.get co = none))
  | .exit => inferInstanceAs (Decidable (∀ co ∈ s.reported, s.sessionCoroutineId.get co = none))
  | .packed => inferInstanceAs (Decidable (∀ co ∈ s.control.coroutine?, ∀ k ∈ s.packed? co,
    ∀ r ∈ s.responses[k]?, r.pack = true))
  | .error session _ _ reuse =>
    inferInstanceAs (Decidable (session ≠ 0 → ∀ co ∈ reuse, s.status co = .pooled))
  | .response .. | .request .. | .unknown .. | .wakeup _ | .fork _ | .timeout _ | .sleep _
  | .wait _ | .call _ | .ignoreret | .respond .. | .packFails | .term .. | .finish | .raise
  | .dispatchWakeup | .dispatchErrorQueue | .nextFork _ | .leave => isTrue trivial

/-- Who can answer a request. -/
inductive Holder where
  | co (co : Co)
  | closure (k : ResponseId)
deriving DecidableEq

/-- The holder has the request with the number, from the session of the address. -/
def Service.Holds (s : Service) : Holder → ℕ → Session → Address → Prop
  | .co co, request, session, address => co ∉ s.reported ∧
    s.sessionCoroutineId.get co = some session ∧ session ≠ 0 ∧
    s.sessionCoroutineAddress.get co = some address ∧ s.request co = request
  | .closure k, request, session, address =>
    s.responses[k]? = some ⟨session, address, true, request⟩

/-- Each request is with one holder, or has been answered once. -/
structure Single (s : Service) : Prop where
  received : ∀ x t σ a, s.Holds x t σ a → s.received[t]? = some (σ, a)
  owner : ∀ x x' t σ a σ' a', s.Holds x t σ a → s.Holds x' t σ' a' → x = x'
  unanswered : ∀ x t σ a, s.Holds x t σ a → t ∉ s.answers.map Answer.request
  once : (s.answers.map Answer.request).Nodup
  answered : ∀ e ∈ s.answers, s.received[e.request]? = some (e.session, e.address)
  unresponse : ∀ k a, s.unresponse.get k = some a →
    ∃ r, s.responses[k]? = some r ∧ r.pack = true
  address : ∀ co σ, s.sessionCoroutineId.get co = some σ →
    (s.sessionCoroutineAddress.get co).isSome

section

variable {s s' : Service} {a : Act} {co : Co} {n : ℕ}

/-! ## What keeps the answers single -/

/-- A step by which nobody gets a request; some are answered by holders that have them no more. -/
theorem Single.answer (h : Single s) (new : List Answer)
    (hanswers : s'.answers = s.answers ++ new) (hreceived : s'.received = s.received)
    (hholds : ∀ x t σ a, s'.Holds x t σ a → s.Holds x t σ a)
    (hnew : (new.map Answer.request).Nodup)
    (hfrom : ∀ e ∈ new, ∃ x, s.Holds x e.request e.session e.address ∧
      ∀ t σ a, ¬ s'.Holds x t σ a)
    (hunresponse : ∀ k a, s'.unresponse.get k = some a →
      ∃ r, s'.responses[k]? = some r ∧ r.pack = true)
    (haddress : ∀ co σ, s'.sessionCoroutineId.get co = some σ →
      (s'.sessionCoroutineAddress.get co).isSome) : Single s' := by
  constructor
  · intro x t σ a hx
    rw [hreceived]
    exact h.received x t σ a (hholds x t σ a hx)
  · intro x x' t σ a σ' a' hx hx'
    exact h.owner x x' t σ a σ' a' (hholds _ _ _ _ hx) (hholds _ _ _ _ hx')
  · intro x t σ a hx
    rw [hanswers, List.map_append, List.mem_append, not_or]
    refine ⟨h.unanswered x t σ a (hholds x t σ a hx), fun hmem => ?_⟩
    -- the holder that has just answered is another one
    obtain ⟨e, he, rfl⟩ := List.mem_map.mp hmem
    obtain ⟨y, hy, hgone⟩ := hfrom e he
    cases h.owner x y _ _ _ _ _ (hholds _ _ _ _ hx) hy
    exact hgone _ _ _ hx
  · rw [hanswers, List.map_append]
    refine h.once.append hnew fun t hold hmem => ?_
    obtain ⟨e, he, rfl⟩ := List.mem_map.mp hmem
    obtain ⟨y, hy, -⟩ := hfrom e he
    exact h.unanswered y _ _ _ hy hold
  · intro e he
    rw [hreceived]
    rw [hanswers] at he
    rcases List.mem_append.mp he with hold | hmem
    · exact h.answered e hold
    · obtain ⟨y, hy, -⟩ := hfrom e hmem
      exact h.received y _ _ _ hy
  · exact hunresponse
  · exact haddress

/-- Nobody gets a request, and none is answered. -/
theorem Single.mono (h : Single s) (hanswers : s'.answers = s.answers)
    (hreceived : s'.received = s.received)
    (hholds : ∀ x t σ a, s'.Holds x t σ a → s.Holds x t σ a)
    (hunresponse : ∀ k a, s'.unresponse.get k = some a →
      ∃ r, s'.responses[k]? = some r ∧ r.pack = true)
    (haddress : ∀ co σ, s'.sessionCoroutineId.get co = some σ →
      (s'.sessionCoroutineAddress.get co).isSome) : Single s' :=
  h.answer [] (hanswers.trans (List.append_nil _).symm) hreceived hholds List.nodup_nil nofun
    hunresponse haddress

/-- The tables of the requests do not depend on the scheduler. -/
theorem Single.schedule (h : Single s) (scheduler : Scheduler) : Single (s.schedule scheduler) :=
  h.mono rfl rfl (fun x _ _ _ hx => by cases x <;> exact hx) h.unresponse h.address

/-! ## The coroutine that runs -/

theorem forget_get {V : Type} {t : Table Co V} {co' : Co} {v : V}
    (h : (t.set co none).get co' = some v) : co' ≠ co ∧ t.get co' = some v := by
  rw [Table.get_set] at h
  split at h
  · cases h
  · exact ⟨‹_›, h⟩

theorem ignoreret_holds {x : Holder} {t : ℕ} {σ : Session} {addr : Address}
    (hx : (s.ignoreret co).Holds x t σ addr) : s.Holds x t σ addr := by
  cases x with
  | co co' =>
    obtain ⟨hco, hid, hrest⟩ := hx
    exact ⟨hco, (forget_get hid).2, hrest⟩
  | closure k => exact hx

theorem forget_holds {x : Holder} {t : ℕ} {σ : Session} {addr : Address}
    (hx : (s.forget co).Holds x t σ addr) : s.Holds x t σ addr := by
  cases x with
  | co co' =>
    obtain ⟨hco, hid, hzero, haddress, hrequest⟩ := hx
    exact ⟨hco, (forget_get hid).2, hzero, (forget_get haddress).2, hrequest⟩
  | closure k => exact hx

theorem Single.ignoreret (h : Single s) (co : Co) : Single (s.ignoreret co) :=
  h.mono rfl rfl (fun _ _ _ _ => ignoreret_holds) h.unresponse
    fun co' σ hσ => h.address co' σ (forget_get hσ).2

theorem Single.forget (h : Single s) (co : Co) : Single (s.forget co) := by
  refine h.mono rfl rfl (fun _ _ _ _ => forget_holds) h.unresponse fun co' σ hσ => ?_
  obtain ⟨hne, hid⟩ := forget_get hσ
  show ((s.sessionCoroutineAddress.set co none).get co').isSome
  rw [Table.get_set_of_ne hne]
  exact h.address co' σ hid

/-- A coroutine answers its request, and its session is taken away. -/
theorem Single.answerCo (h : Single s) {t : ℕ} {σ : Session} {addr : Address}
    (hco : s.Holds (.co co) t σ addr) {s₁ : Service} (h₁ : Single s₁)
    (hanswers : s₁.answers = s.answers) (hreceived : s₁.received = s.received)
    (hholds : ∀ x t σ a, s₁.Holds x t σ a → s.Holds x t σ a)
    (hid : s₁.sessionCoroutineId.get co = none) : Single (s₁.answer t σ addr) := by
  refine h.answer [⟨t, σ, addr⟩] ?_ hreceived (fun x t σ a hx => ?_) (List.nodup_singleton _)
    (fun e he => ⟨.co co, ?_, fun t σ a hx => ?_⟩) h₁.unresponse h₁.address
  · show s₁.answers ++ _ = _
    rw [hanswers]
  · refine hholds x t σ a ?_
    cases x <;> exact hx
  · rw [List.mem_singleton.mp he]
    exact hco
  · have hsome := hx.2.1
    change s₁.sessionCoroutineId.get co = some σ at hsome
    rw [hid] at hsome
    cases hsome

/-- The coroutine has its request, unless `skynet.exit` has answered. -/
theorem holds_co {σ : Session} {addr : Address} (hid : s.sessionCoroutineId.get co = some σ)
    (haddress : s.sessionCoroutineAddress.get co = some addr) (hzero : σ ≠ 0)
    (hok : co ∈ s.reported → s.sessionCoroutineId.get co = none) :
    s.Holds (.co co) (s.request co) σ addr := by
  refine ⟨fun hmem => ?_, hid, hzero, haddress, rfl⟩
  rw [hok hmem] at hid
  cases hid

theorem Single.ret (h : Single s) (hok : co ∈ s.reported → s.sessionCoroutineId.get co = none) :
    Single (s.ret co) := by
  unfold Service.ret
  split
  · rename_i σ addr hid haddress
    split_ifs with hzero
    · exact h.ignoreret co
    · exact h.answerCo (holds_co hid haddress hzero hok) (h.ignoreret co) rfl rfl
        (fun _ _ _ _ => ignoreret_holds) Table.get_set_self
  · exact h.ignoreret co

theorem Single.suspendError (h : Single s)
    (hok : co ∈ s.reported → s.sessionCoroutineId.get co = none) : Single (s.suspendError co) := by
  unfold Service.suspendError
  split
  · rename_i σ addr hid haddress
    split_ifs with hzero
    · exact h.forget co
    · exact h.answerCo (holds_co hid haddress hzero hok) (h.forget co) rfl rfl
        (fun _ _ _ _ => forget_holds) Table.get_set_self
  · exact h.forget co
  · exact h

theorem Single.finish (h : Single s) : Single (s.finish co n) := by
  unfold Service.finish
  dsimp only
  split
  · exact (h.forget co).schedule _
  · exact h.schedule _

/-- `skynet.response` moves the request from the coroutine to the closure. -/
theorem Single.response (h : Single s)
    (hok : co ∈ s.reported → s.sessionCoroutineId.get co = none) : Single (s.response co) := by
  have hignore := h.ignoreret co
  unfold Service.response
  split
  · rename_i σ addr hid haddress
    split_ifs with hzero
    · exact hignore
    · have hco := holds_co hid haddress hzero hok
      let s₁ : Service := { s.ignoreret co with
        unresponse := s.unresponse.set s.responses.length (some addr)
        responses := s.responses ++ [⟨σ, addr, true, s.request co⟩] }
      -- whoever holds a request held it before, or is the closure, and then the coroutine did
      have hholds : ∀ x t σ' a, s₁.Holds x t σ' a →
          x ≠ .co co ∧ s.Holds x t σ' a ∨
            x = .closure s.responses.length ∧ t = s.request co ∧ σ' = σ ∧ a = addr := by
        intro x t σ' a hx
        cases x with
        | co co' =>
          refine Or.inl ⟨?_, ignoreret_holds hx⟩
          rintro ⟨⟩
          have hsome := hx.2.1
          change (s.sessionCoroutineId.set co none).get co = some σ' at hsome
          rw [Table.get_set_self] at hsome
          cases hsome
        | closure k =>
          change (s.responses ++ [_])[k]? = some _ at hx
          by_cases hlt : k < s.responses.length
          · rw [List.getElem?_append_left hlt] at hx
            exact Or.inl ⟨nofun, hx⟩
          · rw [List.getElem?_append_right (not_lt.mp hlt), List.getElem?_singleton] at hx
            split at hx
            · rename_i hsub
              cases hx
              have heq : k = s.responses.length :=
                le_antisymm (Nat.sub_eq_zero_iff_le.mp hsub) (not_lt.mp hlt)
              exact Or.inr ⟨by rw [heq], rfl, rfl, rfl⟩
            · cases hx
      show Single s₁
      constructor
      · intro x t σ' a hx
        rcases hholds x t σ' a hx with ⟨-, hold⟩ | ⟨-, rfl, rfl, rfl⟩
        · exact h.received x t σ' a hold
        · exact h.received _ _ _ _ hco
      · intro x x' t σ' a σ'' a' hx hx'
        rcases hholds x t σ' a hx with ⟨hne, hold⟩ | ⟨rfl, rfl, -⟩
        · rcases hholds x' t σ'' a' hx' with ⟨-, hold'⟩ | ⟨-, rfl, -⟩
          · exact h.owner x x' t _ _ _ _ hold hold'
          · exact absurd (h.owner x _ _ _ _ _ _ hold hco) hne
        · rcases hholds x' _ σ'' a' hx' with ⟨hne, hold'⟩ | ⟨rfl, -⟩
          · exact absurd (h.owner x' _ _ _ _ _ _ hold' hco) hne
          · rfl
      · intro x t σ' a hx
        rcases hholds x t σ' a hx with ⟨-, hold⟩ | ⟨-, rfl, -⟩
        · exact h.unanswered x t σ' a hold
        · exact h.unanswered _ _ _ _ hco
      · exact h.once
      · exact h.answered
      · intro k a hk
        change (s.unresponse.set s.responses.length (some addr)).get k = some a at hk
        rw [Table.get_set] at hk
        split at hk
        · rename_i heq
          refine ⟨⟨σ, addr, true, s.request co⟩, ?_, rfl⟩
          show (s.responses ++ [_])[k]? = _
          rw [heq]
          exact List.getElem?_concat_length
        · obtain ⟨r, hr, hpack⟩ := h.unresponse k a hk
          refine ⟨r, ?_, hpack⟩
          show (s.responses ++ [_])[k]? = some r
          rw [List.getElem?_append_left (List.getElem?_eq_some_iff.mp hr).1]
          exact hr
      · exact hignore.address
  · exact h

/-! ## Closures -/

theorem getElem?_clearPack {k k' : ResponseId} {r : Response}
    (h : (s.clearPack k).responses[k']? = some r) (hpack : r.pack = true) :
    k' ≠ k ∧ s.responses[k']? = some r := by
  change (s.responses.modify k _)[k']? = some r at h
  by_cases heq : k = k'
  · rw [heq, List.getElem?_modify_eq] at h
    obtain ⟨r', -, rfl⟩ := Option.map_eq_some_iff.mp h
    cases hpack
  · rw [List.getElem?_modify_ne _ _ heq] at h
    exact ⟨fun heq' => heq heq'.symm, h⟩

theorem getElem?_clearPack_of_ne {k k' : ResponseId} (hne : k' ≠ k) :
    (s.clearPack k).responses[k']? = s.responses[k']? :=
  List.getElem?_modify_ne _ _ fun heq => hne heq.symm

theorem clearPack_holds {k : ResponseId} {x : Holder} {t : ℕ} {σ : Session} {addr : Address}
    (hx : (s.clearPack k).Holds x t σ addr) : x ≠ .closure k ∧ s.Holds x t σ addr := by
  cases x with
  | co co' => exact ⟨nofun, hx⟩
  | closure k' =>
    obtain ⟨hne, hold⟩ := getElem?_clearPack hx rfl
    exact ⟨fun heq => hne (Holder.closure.inj heq), hold⟩

/-- A closure that `unresponse` does not have is cleared. -/
theorem Single.clearPack (h : Single s) {k : ResponseId} (hk : s.unresponse.get k = none) :
    Single (s.clearPack k) := by
  refine h.mono rfl rfl (fun x t σ a hx => (clearPack_holds hx).2) (fun k' a hk' => ?_) h.address
  change s.unresponse.get k' = some a at hk'
  have hne : k' ≠ k := by
    rintro rfl
    rw [hk] at hk'
    cases hk'
  rw [getElem?_clearPack_of_ne hne]
  exact h.unresponse k' a hk'

/-- A closure that has not answered yet answers. -/
theorem Single.answerResponse (h : Single s) {k : ResponseId} {r : Response}
    (hr : s.responses[k]? = some r) (hpack : r.pack = true) : Single (s.answerResponse k r) := by
  have hheld : s.Holds (.closure k) r.request r.session r.address := by
    show s.responses[k]? = some ⟨r.session, r.address, true, r.request⟩
    rw [hr, ← hpack]
  refine h.answer [⟨r.request, r.session, r.address⟩] rfl rfl (fun x t σ a hx => ?_)
    (List.nodup_singleton _) (fun e he => ⟨.closure k, ?_, fun t σ a hx => ?_⟩) (fun k' a hk' => ?_)
    h.address
  · have hold := (clearPack_holds hx).2
    cases x <;> exact hold
  · rw [List.mem_singleton.mp he]
    exact hheld
  · exact (clearPack_holds hx).1 rfl
  · change (s.unresponse.set k none).get k' = some a at hk'
    obtain ⟨hne, hold⟩ := forget_get hk'
    obtain ⟨r', hr', hpack'⟩ := h.unresponse k' a hold
    refine ⟨r', ?_, hpack'⟩
    show (s.responses.modify k _)[k']? = _
    rw [List.getElem?_modify_ne _ _ fun heq => hne heq.symm]
    exact hr'

/-- Which `pack` runs does not matter. -/
theorem Single.setPacking (h : Single s) (packing : List (Co × ResponseId)) :
    Single { s with packing := packing } :=
  h.mono rfl rfl (fun x _ _ _ hx => by cases x <;> exact hx) h.unresponse h.address

theorem Single.respond (h : Single s) {k : ResponseId} {ok : Bool}
    (hrespond : s.respond co k ok = some s') : Single s' := by
  obtain ⟨r, hr, rfl⟩ := Option.map_eq_some_iff.mp hrespond
  split_ifs with hpack hnone
  · exact h.clearPack (Option.isNone_iff_eq_none.mp hnone)
  · exact h.setPacking _
  · exact h.answerResponse hr hpack
  · exact h

theorem Single.packed (h : Single s)
    (hok : ∀ k ∈ s.packed? co, ∀ r ∈ s.responses[k]?, r.pack = true)
    (hpacked : s.packed co = some s') : Single s' := by
  obtain ⟨k, hk, hrest⟩ := Option.bind_eq_some_iff.mp hpacked
  obtain ⟨r, hr, rfl⟩ := Option.map_eq_some_iff.mp hrest
  exact (h.answerResponse hr (hok k hk r hr)).setPacking _

theorem Single.packFails (h : Single s) (hpacked : s.packFails co = some s') : Single s' := by
  obtain ⟨k, -, rfl⟩ := Option.map_eq_some_iff.mp hpacked
  exact h.setPacking _

/-! ## skynet.exit -/

/-- What `skynet.exit` finds for an entry of `session_coroutine_id`. -/
theorem holds_openAnswers {e : Co × Session} {found : Co × Answer}
    (he : e ∈ s.sessionCoroutineId.pairs)
    (hfound : ((s.sessionCoroutineAddress.get e.1).bind fun address =>
      if e.2 ≠ 0 then some (e.1, (⟨s.request e.1, e.2, address⟩ : Answer)) else none) = some found)
    (hok : ∀ co ∈ s.reported, s.sessionCoroutineId.get co = none) :
    found.1 = e.1 ∧ s.Holds (.co e.1) found.2.request found.2.session found.2.address := by
  obtain ⟨addr, haddress, hsome⟩ := Option.bind_eq_some_iff.mp hfound
  split at hsome
  · cases hsome
    exact ⟨rfl, holds_co (Table.mem_pairs.mp he) haddress ‹_› (hok e.1)⟩
  · cases hsome

/-- What it finds for an entry of `unresponse`. -/
theorem holds_openResponses (h : Single s) {e : ResponseId × Address} {found : Answer}
    (he : e ∈ s.unresponse.pairs)
    (hfound : ((s.responses[e.1]?).map fun r =>
      (⟨r.request, r.session, r.address⟩ : Answer)) = some found) :
    (s.unresponse.get e.1).isSome ∧
      s.Holds (.closure e.1) found.request found.session found.address := by
  have hget := Table.mem_pairs.mp he
  obtain ⟨r, hr, rfl⟩ := Option.map_eq_some_iff.mp hfound
  obtain ⟨r', hr', hpack⟩ := h.unresponse e.1 e.2 hget
  cases hr.symm.trans hr'
  refine ⟨by rw [hget]; rfl, ?_⟩
  show s.responses[e.1]? = some ⟨r.session, r.address, true, r.request⟩
  rw [hr, ← hpack]

theorem mem_openAnswers {found : Co × Answer} (hmem : found ∈ s.openAnswers)
    (hok : ∀ co ∈ s.reported, s.sessionCoroutineId.get co = none) :
    s.Holds (.co found.1) found.2.request found.2.session found.2.address := by
  obtain ⟨e, he, hfound⟩ := List.mem_filterMap.mp hmem
  obtain ⟨heq, hheld⟩ := holds_openAnswers he hfound hok
  rw [heq]
  exact hheld

theorem mem_openResponses (h : Single s) {found : Answer} (hmem : found ∈ s.openResponses) :
    ∃ k, (s.unresponse.get k).isSome ∧
      s.Holds (.closure k) found.request found.session found.address := by
  obtain ⟨e, he, hfound⟩ := List.mem_filterMap.mp hmem
  exact ⟨e.1, holds_openResponses h he hfound⟩

/-- The ERROR messages of `skynet.exit` are for different requests. -/
theorem nodup_open (h : Single s) (hok : ∀ co ∈ s.reported, s.sessionCoroutineId.get co = none) :
    ((s.openAnswers.map Prod.snd ++ s.openResponses).map Answer.request).Nodup := by
  have hpairs : ∀ {K V : Type} [DecidableEq K] (t : Table K V),
      t.pairs.Pairwise fun e e' => e.1 ≠ e'.1 := fun t => List.pairwise_map.mp t.nodup_pairs
  rw [List.map_append, List.map_map]
  refine List.Nodup.append ?_ ?_ fun t hco hclosure => ?_
  · refine List.pairwise_map.mpr (List.pairwise_filterMap.mpr ?_)
    refine (hpairs _).imp_of_mem fun {e e'} he he' hne found hfound found' hfound' heq => hne ?_
    obtain ⟨-, hheld⟩ := holds_openAnswers he hfound hok
    obtain ⟨-, hheld'⟩ := holds_openAnswers he' hfound' hok
    rw [show found.2.request = found'.2.request from heq] at hheld
    exact Holder.co.inj (h.owner _ _ _ _ _ _ _ hheld hheld')
  · refine List.pairwise_map.mpr (List.pairwise_filterMap.mpr ?_)
    refine (hpairs _).imp_of_mem fun {e e'} he he' hne found hfound found' hfound' heq => hne ?_
    obtain ⟨-, hheld⟩ := holds_openResponses h he hfound
    obtain ⟨-, hheld'⟩ := holds_openResponses h he' hfound'
    rw [heq] at hheld
    exact Holder.closure.inj (h.owner _ _ _ _ _ _ _ hheld hheld')
  · obtain ⟨found, hfound, rfl⟩ := List.mem_map.mp hco
    obtain ⟨found', hfound', heq⟩ := List.mem_map.mp hclosure
    obtain ⟨k, -, hheld'⟩ := mem_openResponses h hfound'
    rw [heq] at hheld'
    cases h.owner _ _ _ _ _ _ _ (mem_openAnswers hfound hok) hheld'

theorem Single.exit (h : Single s) (hok : ∀ co ∈ s.reported, s.sessionCoroutineId.get co = none) :
    Single (s.exit co n) := by
  have hholds : ∀ x t σ a, (s.exit co n).Holds x t σ a → s.Holds x t σ a ∧
      (∀ co', x = .co co' → co' ∉ s.openAnswers.map Prod.fst) ∧
      ∀ k, x = .closure k → s.unresponse.get k = none := by
    intro x t σ a hx
    cases x with
    | co co' =>
      obtain ⟨hnot, hrest⟩ := hx
      change co' ∉ s.reported ++ s.openAnswers.map Prod.fst at hnot
      rw [List.mem_append, not_or] at hnot
      refine ⟨⟨hnot.1, hrest⟩, fun co'' heq => ?_, nofun⟩
      cases heq
      exact hnot.2
    | closure k =>
      change (s.responses.mapIdx _)[k]? = some _ at hx
      rw [List.getElem?_mapIdx] at hx
      obtain ⟨r, hr, heq⟩ := Option.map_eq_some_iff.mp hx
      split at heq
      · cases heq
      · rename_i hnone
        rw [heq] at hr
        refine ⟨hr, nofun, fun k' heq' => ?_⟩
        cases heq'
        exact Option.not_isSome_iff_eq_none.mp hnone
  refine h.answer (s.openAnswers.map Prod.snd ++ s.openResponses) (List.append_assoc ..) rfl
    (fun x t σ a hx => (hholds x t σ a hx).1) (nodup_open h hok) (fun e he => ?_) ?_ h.address
  · rcases List.mem_append.mp he with hmem | hmem
    · obtain ⟨found, hfound, rfl⟩ := List.mem_map.mp hmem
      refine ⟨.co found.1, mem_openAnswers hfound hok, fun t σ a hx => ?_⟩
      exact (hholds _ t σ a hx).2.1 _ rfl (List.mem_map_of_mem hfound)
    · obtain ⟨k, hsome, hheld⟩ := mem_openResponses h hmem
      refine ⟨.closure k, hheld, fun t σ a hx => ?_⟩
      rw [(hholds _ t σ a hx).2.2 k rfl] at hsome
      cases hsome
  · intro k a hk
    cases hk

/-! ## Messages -/

/-- A new request is with its coroutine. -/
theorem Single.request (h : Single s) (co : Co) (σ : Session) (addr : Address) :
    Single { s with
      sessionCoroutineId := s.sessionCoroutineId.set co (some σ)
      sessionCoroutineAddress := s.sessionCoroutineAddress.set co (some addr)
      received := s.received ++ [(σ, addr)]
      request := update s.request co s.received.length } := by
  set s₁ : Service := { s with
      sessionCoroutineId := s.sessionCoroutineId.set co (some σ)
      sessionCoroutineAddress := s.sessionCoroutineAddress.set co (some addr)
      received := s.received ++ [(σ, addr)]
      request := update s.request co s.received.length } with hs₁
  have hkeep : ∀ {t : ℕ} {p : Session × Address}, s.received[t]? = some p →
      t ≠ s.received.length ∧ (s.received ++ [(σ, addr)])[t]? = some p := by
    intro t p hp
    have hlt := (List.getElem?_eq_some_iff.mp hp).1
    exact ⟨Nat.ne_of_lt hlt, by rw [List.getElem?_append_left hlt]; exact hp⟩
  have hholds : ∀ x t σ' a, s₁.Holds x t σ' a →
      s.Holds x t σ' a ∨ x = .co co ∧ t = s.received.length ∧ σ' = σ ∧ a = addr := by
    intro x t σ' a hx
    cases x with
    | closure k => exact Or.inl hx
    | co co' =>
      obtain ⟨hnot, hid, hzero, haddress, hrequest⟩ := hx
      change (s.sessionCoroutineId.set co (some σ)).get co' = some σ' at hid
      change (s.sessionCoroutineAddress.set co (some addr)).get co' = some a at haddress
      change update s.request co s.received.length co' = t at hrequest
      by_cases heq : co' = co
      · rw [heq, Table.get_set_self] at hid haddress
        rw [heq, update_self] at hrequest
        cases hid
        cases haddress
        exact Or.inr ⟨by rw [heq], hrequest.symm, rfl, rfl⟩
      · rw [Table.get_set_of_ne heq] at hid haddress
        rw [update_of_ne heq] at hrequest
        exact Or.inl ⟨hnot, hid, hzero, haddress, hrequest⟩
  constructor
  · intro x t σ' a hx
    rcases hholds x t σ' a hx with hold | ⟨-, rfl, rfl, rfl⟩
    · exact (hkeep (h.received x t σ' a hold)).2
    · exact List.getElem?_concat_length
  · intro x x' t σ' a σ'' a' hx hx'
    rcases hholds x t σ' a hx with hold | ⟨rfl, rfl, -⟩
    · rcases hholds x' t σ'' a' hx' with hold' | ⟨-, rfl, -⟩
      · exact h.owner x x' t _ _ _ _ hold hold'
      · exact absurd rfl (hkeep (h.received x _ _ _ hold)).1
    · rcases hholds x' _ σ'' a' hx' with hold' | ⟨rfl, -⟩
      · exact absurd rfl (hkeep (h.received x' _ _ _ hold')).1
      · rfl
  · intro x t σ' a hx hmem
    rcases hholds x t σ' a hx with hold | ⟨-, rfl, -⟩
    · exact h.unanswered x t σ' a hold hmem
    · obtain ⟨e, he, heq⟩ := List.mem_map.mp hmem
      exact (hkeep (h.answered e he)).1 heq
  · exact h.once
  · intro e he
    exact (hkeep (h.answered e he)).2
  · exact h.unresponse
  · intro co' σ' hid
    change (s.sessionCoroutineId.set co (some σ)).get co' = some σ' at hid
    show ((s.sessionCoroutineAddress.set co (some addr)).get co').isSome
    by_cases heq : co' = co
    · rw [heq, Table.get_set_self]
      rfl
    · rw [Table.get_set_of_ne heq] at hid ⊢
      exact h.address co' σ' hid

theorem Single.dispatchRequest (h : Single s) {session : Session} {source : Address}
    {reuse : Option Co} {unpacked : Bool}
    (hstep : s.dispatchRequest session source reuse unpacked = some s') : Single s' := by
  obtain ⟨⟨co, s₁⟩, hhandler, rfl⟩ := Option.map_eq_some_iff.mp hstep
  obtain ⟨⟨co', scheduler⟩, -, heq⟩ := Option.map_eq_some_iff.mp hhandler
  cases heq
  exact (h.request co session source).schedule _

/-- A request that nobody handles is answered at once. -/
theorem Single.dispatchUnknown (h : Single s) (session : Session) (source : Address) :
    Single (s.dispatchUnknown session source) := by
  have hkeep : ∀ {t : ℕ} {p : Session × Address}, s.received[t]? = some p →
      t ≠ s.received.length ∧ (s.received ++ [(session, source)])[t]? = some p := by
    intro t p hp
    have hlt := (List.getElem?_eq_some_iff.mp hp).1
    exact ⟨Nat.ne_of_lt hlt, by rw [List.getElem?_append_left hlt]; exact hp⟩
  have hreceived : Single { s with received := s.received ++ [(session, source)] } :=
    ⟨fun x t σ a hx => (hkeep (h.received x t σ a (by cases x <;> exact hx))).2,
      fun x x' t σ a σ' a' hx hx' => h.owner x x' t σ a σ' a' (by cases x <;> exact hx)
        (by cases x' <;> exact hx'),
      fun x t σ a hx => h.unanswered x t σ a (by cases x <;> exact hx), h.once,
      fun e he => (hkeep (h.answered e he)).2, h.unresponse, h.address⟩
  unfold Service.dispatchUnknown
  split_ifs
  · exact hreceived.schedule _
  · have hanswer : Single (Service.answer { s with received := s.received ++ [(session, source)] }
        s.received.length session source) := by
      constructor
      · exact fun x t σ a hx => hreceived.received x t σ a (by cases x <;> exact hx)
      · exact fun x x' t σ a σ' a' hx hx' => hreceived.owner x x' t σ a σ' a'
          (by cases x <;> exact hx) (by cases x' <;> exact hx')
      · intro x t σ a hx hmem
        have hold : s.Holds x t σ a := by cases x <;> exact hx
        change t ∈ (s.answers ++ [_]).map Answer.request at hmem
        rw [List.map_append, List.mem_append] at hmem
        rcases hmem with hmem | hmem
        · exact h.unanswered x t σ a hold hmem
        · exact (hkeep (h.received x t σ a hold)).1 (List.mem_singleton.mp hmem)
      · show ((s.answers ++ [_]).map Answer.request).Nodup
        rw [List.map_append]
        refine h.once.append (List.nodup_singleton _) fun t hold hnew => ?_
        obtain ⟨e, he, rfl⟩ := List.mem_map.mp hold
        exact (hkeep (h.answered e he)).1 (List.mem_singleton.mp hnew)
      · intro e he
        rcases List.mem_append.mp he with hold | hnew
        · exact hreceived.answered e hold
        · rw [List.mem_singleton.mp hnew]
          exact List.getElem?_concat_length
      · exact hreceived.unresponse
      · exact hreceived.address
    exact hanswer.schedule _

theorem Single.errorDispatch (h : Single (s.ignoreret co)) {session : Session} {source : Address}
    {order : List Session} (hstep : s.errorDispatch co session source order = some s') :
    Single s' := by
  obtain ⟨scheduler, -, rfl⟩ := Option.map_eq_some_iff.mp hstep
  refine h.mono rfl rfl (fun x _ _ _ hx => by cases x <;> exact hx) (fun k a hk => ?_) h.address
  refine h.unresponse k a ?_
  change (if session = 0 then s.unresponse.filter fun _ address => address ≠ source
    else s.unresponse).get k = some a at hk
  split at hk
  · rw [Table.get_filter] at hk
    exact (Option.filter_eq_some_iff.mp hk).1
  · exact hk

/-- A coroutine from the pool that waits for a main function gets one. -/
theorem coCreate_ready {s s' : Scheduler} {timer : Option Session} {reuse : Option Co} {co : Co}
    (hok : ∀ co ∈ reuse, s.status co = .pooled)
    (hcreate : s.coCreate timer reuse = some (co, s')) : s'.status co = .ready timer := by
  cases reuse with
  | none =>
    cases hcreate
    exact update_self ..
  | some co' =>
    unfold Scheduler.coCreate at hcreate
    dsimp only at hcreate
    split at hcreate
    · cases hcreate
      rw [if_pos (hok co rfl)]
      exact update_self ..
    · cases hcreate

theorem Single.dispatchError (h : Single s) {session : Session} {source : Address}
    {order : List Session} {reuse : Option Co}
    (hok : session ≠ 0 → ∀ co ∈ reuse, s.status co = .pooled)
    (hstep : s.dispatchError session source order reuse = some s') : Single s' := by
  obtain ⟨⟨co, s₁⟩, hhandler, hrest⟩ := Option.bind_eq_some_iff.mp hstep
  obtain ⟨⟨co', scheduler⟩, hcreate, heq⟩ := Option.map_eq_some_iff.mp hhandler
  cases heq
  set s₁ : Service := { s with
    toScheduler := scheduler
    sessionCoroutineId := s.sessionCoroutineId.set co (some session)
    sessionCoroutineAddress := s.sessionCoroutineAddress.set co (some source) }
  have haddress : ∀ co' σ, s₁.sessionCoroutineId.get co' = some σ →
      (s₁.sessionCoroutineAddress.get co').isSome := by
    intro co' σ hid
    change (s.sessionCoroutineId.set co (some session)).get co' = some σ at hid
    show ((s.sessionCoroutineAddress.set co (some source)).get co').isSome
    by_cases heq : co' = co
    · rw [heq, Table.get_set_self]
      rfl
    · rw [Table.get_set_of_ne heq] at hid ⊢
      exact h.address co' σ hid
  -- the session of the message is only of use to the coroutine itself
  have hholds : ∀ x t σ a, s₁.Holds x t σ a → s.Holds x t σ a ∨ x = .co co ∧ σ = session := by
    intro x t σ a hx
    cases x with
    | closure k => exact Or.inl hx
    | co co' =>
      obtain ⟨hnot, hid, hzero, haddr, hrequest⟩ := hx
      change (s.sessionCoroutineId.set co (some session)).get co' = some σ at hid
      change (s.sessionCoroutineAddress.set co (some source)).get co' = some a at haddr
      by_cases heq : co' = co
      · rw [heq, Table.get_set_self] at hid
        exact Or.inr ⟨by rw [heq], (Option.some.inj hid).symm⟩
      · rw [Table.get_set_of_ne heq] at hid haddr
        exact Or.inl ⟨hnot, hid, hzero, haddr, hrequest⟩
  by_cases hdead : s₁.status co = .dead
  · simp only [if_pos hdead] at hrest
    cases hrest
    have hzero : session = 0 := by
      by_contra hne
      have hpooled : ∀ co ∈ reuse, s.begin.status co = .pooled := hok hne
      have hready : s₁.status co = .ready none := coCreate_ready hpooled hcreate
      rw [hready] at hdead
      cases hdead
    refine h.mono rfl rfl (fun x t σ a hx => ?_) h.unresponse haddress
    have hx' : s₁.Holds x t σ a := by cases x <;> exact hx
    refine (hholds x t σ a hx').resolve_right ?_
    rintro ⟨rfl, rfl⟩
    exact hx.2.2.1 hzero
  · simp only [if_neg hdead] at hrest
    obtain ⟨s₂, herror, rfl⟩ := Option.map_eq_some_iff.mp hrest
    refine (Single.errorDispatch ?_ herror).finish
    refine h.mono rfl rfl (fun x t σ a hx => ?_) h.unresponse
      fun co' σ hid => haddress co' σ (forget_get hid).2
    refine (hholds x t σ a (ignoreret_holds hx)).resolve_right ?_
    rintro ⟨rfl, -⟩
    exact (forget_get hx.2.1).1 rfl

/-! ## Runs -/

theorem Single.runStep (h : Single s) (hcontrol : s.control = .running co n) (hok : s.Settled a)
    (hstep : s.runStep co n a = some s') : Single s' := by
  have hco : co ∈ s.control.coroutine? := by
    rw [hcontrol]
    rfl
  cases a with
  | ret =>
    cases hstep
    exact h.ret (hok co hco)
  | ignoreret =>
    cases hstep
    exact h.ignoreret co
  | newResponse =>
    cases hstep
    exact h.response (hok co hco)
  | respond k ok => exact h.respond hstep
  | packed => exact h.packed (hok co hco) hstep
  | packFails => exact h.packFails hstep
  | term service order => exact (h.ignoreret co).errorDispatch hstep
  | exit =>
    cases hstep
    exact h.exit hok
  | finish =>
    have hfinish : (if (s.packed? co).isSome then none else some (s.finish co n)) = some s' := hstep
    split at hfinish
    · cases hfinish
    · cases hfinish
      exact h.finish
  | raise =>
    cases hstep
    exact (h.schedule _).setPacking _
  | wakeup token =>
    cases hstep
    exact h.schedule _
  | fork reuse =>
    obtain ⟨s₁, -, rfl⟩ := Option.map_eq_some_iff.mp hstep
    exact h.schedule s₁
  | timeout reuse =>
    obtain ⟨s₁, -, rfl⟩ := Option.map_eq_some_iff.mp hstep
    exact h.schedule s₁
  | sleep token =>
    cases hstep
    exact h.schedule _
  | wait token =>
    cases hstep
    exact h.schedule _
  | call addr =>
    cases hstep
    exact h.schedule _
  | _ => cases hstep

/-- A step by which none of the three happens keeps the requests apart. -/
theorem Single.step (h : Single s) (hok : s.Settled a) (hstep : s.step a = some s') :
    Single s' := by
  unfold Service.step at hstep
  split at hstep
  · cases hstep
    exact h.schedule _
  · exact h.dispatchError hok hstep
  · exact h.dispatchRequest hstep
  · cases hstep
    exact h.dispatchUnknown _ _
  · exact h.runStep ‹_› hok hstep
  · cases hstep
    exact h.schedule _
  · cases hstep
    exact h.schedule _
  · rename_i co reuse hcontrol
    obtain ⟨s₁, -, rfl⟩ := Option.map_eq_some_iff.mp hstep
    refine (h.suspendError (hok co ?_)).schedule _
    rw [hcontrol]
    rfl
  · obtain ⟨s₁, -, rfl⟩ := Option.map_eq_some_iff.mp hstep
    exact h.schedule s₁
  · obtain ⟨s₁, -, rfl⟩ := Option.map_eq_some_iff.mp hstep
    exact h.schedule s₁
  · cases hstep

theorem single_start : Single Service.start := by
  have hnone : ∀ x t σ a, ¬ Service.start.Holds x t σ a := by
    intro x t σ a hx
    cases x with
    | co co' => cases hx.2.1
    | closure k => cases hx
  exact ⟨fun x t σ a hx => absurd hx (hnone x t σ a),
    fun x _ t σ a _ _ hx => absurd hx (hnone x t σ a),
    fun x t σ a hx => absurd hx (hnone x t σ a), List.nodup_nil, nofun, nofun, nofun⟩

/-- The answers with a session to an address are not more than the requests. -/
theorem Single.countP_le (h : Single s) (σ : Session) (addr : Address) :
    s.answers.countP (fun e => e.session = σ ∧ e.address = addr) ≤ s.received.count (σ, addr) := by
  rw [List.countP_eq_length_filter, ← List.length_map Answer.request, List.count,
    ← List.length_findIdxs]
  refine List.Nodup.length_le_of_subset ?_ fun t ht => ?_
  · exact h.once.sublist (List.filter_sublist.map _)
  · obtain ⟨e, he, rfl⟩ := List.mem_map.mp ht
    obtain ⟨hmem, hmatch⟩ := List.mem_filter.mp he
    obtain ⟨rfl, rfl⟩ := of_decide_eq_true hmatch
    have hget := h.answered e hmem
    obtain ⟨hlt, heq⟩ := List.getElem?_eq_some_iff.mp hget
    rw [List.mem_findIdxs_iff_pos_getElem hlt, heq]
    exact beq_self_eq_true _

end

/-- **Each request has at most one final answer.** Every RESPONSE or ERROR answers a request that
has come, with its session and to where it came from, no request is answered twice, and so no
address gets more answers with a session than it has sent requests. -/
theorem requests_answered_once {acts : List Act} {s : Service}
    (hok : Guarded Service.step Service.Settled Service.start acts)
    (hrun : run Service.step Service.start acts = some s) :
    (s.answers.map Answer.request).Nodup ∧
      (∀ e ∈ s.answers, s.received[e.request]? = some (e.session, e.address)) ∧
      ∀ σ addr, s.answers.countP (fun e => e.session = σ ∧ e.address = addr) ≤
        s.received.count (σ, addr) := by
  have h : Single s :=
    run_invariant (fun s a s' h ha hstep => h.step ha hstep) single_start hok hrun
  exact ⟨h.once, h.answered, h.countP_le⟩

/-- Two requests from the address 9: the first one calls the service 7, the second one waits with
the token 1. -/
def twoRequests : List Act :=
  [.response 1 0, .finish, .dispatchWakeup, .dispatchErrorQueue, .dispatchErrorQueue, .leave,
    .request 5 9 none true, .call 7, .dispatchWakeup, .dispatchErrorQueue, .dispatchErrorQueue,
    .leave, .request 6 9 none true, .wait (.value 1), .dispatchWakeup, .dispatchErrorQueue,
    .dispatchErrorQueue, .leave]

/-- The first one is answered when its call is, and `skynet.exit` answers the second one. -/
def exitLater : List Act :=
  twoRequests ++ ([.response 2 4, .ret, .exit, .dispatchErrorQueue, .leave] : List Act)

theorem requests_answered_once_exitLater :
    ∃ s, run Service.step Service.start exitLater = some s ∧
      (s.answers.map Answer.request).Nodup ∧ s.answers.length = 2 := by
  have hcheck : (run Service.step Service.start exitLater).map (fun s => s.answers.length) =
      some 2 := by decide
  obtain ⟨s, hrun, heq⟩ := Option.map_eq_some_iff.mp hcheck
  exact ⟨s, hrun, (requests_answered_once (by decide) hrun).1, heq⟩

/-- A third request wakes the second one and drops the call of the first one. The second one calls
`skynet.exit`, and the first one goes on to `skynet.ret`. -/
def exitNested : List Act :=
  twoRequests ++ ([.request 0 9 none true, .wakeup (.value 1), .term 7 [2], .finish,
    .dispatchWakeup, .exit, .dispatchErrorQueue, .ret] : List Act)

/-- The first request has two answers. -/
theorem request_answered_twice :
    ∃ s, run Service.step Service.start exitNested = some s ∧ s.received.count (5, 9) = 1 ∧
      s.answers.countP (fun e => e.session = 5 ∧ e.address = 9) = 2 := by
  have hcheck : (run Service.step Service.start exitNested).map (fun s =>
      (s.received.count (5, 9), s.answers.countP fun e => e.session = 5 ∧ e.address = 9)) =
      some (1, 2) := by decide
  obtain ⟨s, hrun, heq⟩ := Option.map_eq_some_iff.mp hcheck
  obtain ⟨hreceived, hanswers⟩ := Prod.mk.inj heq
  exact ⟨s, hrun, hreceived, hanswers⟩

end SkynetEureka.Coroutines
