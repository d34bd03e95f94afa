import SkynetEureka.Lib.Lists
import SkynetEureka.MsgServer.Cache

/-!
# A response is kept until it is old

`User.Sound` holds between the steps of a user. The index of a response that is kept tells how many
have come after it, and each rebase brings the two no nearer.
-/

namespace SkynetEureka.MsgServer

open Lib

variable {ι : Type} {n : ℕ}

/-- The entry is in the cache, and has been completed. -/
structure User.Kept (u : User ι) (e : ℕ) (p : Entry ι) : Prop where
  entry : u.entries[e]? = some p
  cached : u.response.get p.session = some e
  completed : p.returnFd = none

/-- What holds of a user but for the bound on the index. -/
structure User.Ordered (u : User ι) : Prop where
  known : ∀ session e, u.response.get session = some e →
    ∃ p, u.entries[e]? = some p ∧ p.session = session
  ready : ∀ (e : ℕ) (p : Entry ι), u.entries[e]? = some p → (p.returnFd = none ↔ p.response ≠ none)
  older : ∀ e p, u.Kept e p → p.index < u.index
  apart : ∀ e e' p p', u.Kept e p → u.Kept e' p' → p.index = p'.index → e = e'
  stamp : ∀ e p, u.Kept e p → p.stamp ≤ u.responded ∧
    u.index + p.stamp ≤ p.index + 1 + u.responded
  sends : ∀ (e : ℕ) (p : Entry ι), u.entries[e]? = some p →
    p.sends ≤ p.requests ∧ (p.response = none → p.sends < p.requests)

/-- The invariant of a user. -/
structure User.Sound (n : ℕ) (u : User ι) : Prop extends User.Ordered u where
  bound : 0 < n → u.index < 2 * n

namespace User

variable {u : User ι}

theorem Ordered.mem_cached (h : u.Ordered) {e : ℕ} {p : Entry ι} (hget : u.entries[e]? = some p) :
    e ∈ u.cached ↔ u.response.get p.session = some e := by
  unfold cached
  rw [List.mem_map]
  constructor
  · rintro ⟨⟨session, e'⟩, hmem, heq⟩
    obtain rfl : e' = e := heq
    have hsession := Table.mem_pairs.mp hmem
    obtain ⟨p', hget', hp'⟩ := h.known session e' hsession
    obtain rfl := Option.some.inj (hget.symm.trans hget')
    rwa [hp']
  · intro hcached
    exact ⟨(p.session, e), Table.mem_pairs.mpr hcached, rfl⟩

/-! ## `retire_response` -/

theorem foldl_max_le {l : List ℕ} {a b : ℕ} (ha : a ≤ b) (hl : ∀ x ∈ l, x ≤ b) :
    l.foldl max a ≤ b := by
  induction l generalizing a with
  | nil => exact ha
  | cons x l ih =>
    exact ih (max_le ha (hl x List.mem_cons_self)) fun y hy => hl y (List.mem_cons_of_mem x hy)

theorem le_foldl_max {l : List ℕ} {a x : ℕ} (h : x = a ∨ x ∈ l) : x ≤ l.foldl max a := by
  induction l generalizing a x with
  | nil =>
    rcases h with rfl | h
    · exact le_rfl
    · cases h
  | cons y l ih =>
    have hle : ∀ x, x = max a y ∨ x ∈ l → x ≤ l.foldl max (max a y) := fun x hx => ih hx
    rcases h with rfl | h
    · exact le_trans (le_max_left x y) (hle _ (.inl rfl))
    · rcases List.mem_cons.mp h with rfl | h
      · exact le_trans (le_max_right a x) (hle _ (.inl rfl))
      · exact hle x (.inr h)

/-- What `retire_response` leaves under a session. -/
theorem get_retire (session : ℕ) (hold : n * 2 ≤ u.index) :
    (u.retire n).response.get session =
      (u.response.get session).filter fun e => decide (¬ ∃ p ∈ u.entries[e]?, p.Expired n) := by
  unfold retire
  rw [if_pos hold]
  exact Table.get_filter

/-- What it makes of an entry. -/
theorem entries_retire (e : ℕ) (hold : n * 2 ≤ u.index) :
    (u.retire n).entries[e]? = u.entries[e]?.map fun p =>
      if e ∈ u.cached ∧ p.Fresh n then { p with index := p.index - n } else p := by
  unfold retire
  rw [if_pos hold]
  exact List.getElem?_mapIdx

theorem retire_of_lt (h : u.index < n * 2) : u.retire n = u := by
  unfold retire
  rw [if_neg (by omega)]

/-- An entry before and after. -/
theorem exists_entry_of_retire {e : ℕ} {p : Entry ι} (h : (u.retire n).entries[e]? = some p) :
    ∃ p', u.entries[e]? = some p' ∧ ∃ index, p = { p' with index := index } := by
  rcases Nat.lt_or_ge u.index (n * 2) with hlt | hold
  · rw [retire_of_lt hlt] at h
    exact ⟨p, h, p.index, rfl⟩
  · rw [entries_retire e hold] at h
    obtain ⟨p', hget, heq⟩ := Option.map_eq_some_iff.mp h
    refine ⟨p', hget, ?_⟩
    rw [← heq]
    split_ifs
    · exact ⟨_, rfl⟩
    · exact ⟨p'.index, rfl⟩

/-- A response that is still kept was kept, and is not expired. -/
theorem Ordered.kept_of_retire (h : u.Ordered) {e : ℕ} {p : Entry ι} (hold : n * 2 ≤ u.index)
    (hp : (u.retire n).Kept e p) :
    ∃ p', u.Kept e p' ∧ n ≤ p'.index ∧ p = { p' with index := p'.index - n } := by
  have hentry := hp.entry
  rw [entries_retire e hold] at hentry
  obtain ⟨p', hget, heq⟩ := Option.map_eq_some_iff.mp hentry
  have hcached := hp.cached
  rw [get_retire p.session hold, Option.filter_eq_some_iff] at hcached
  obtain ⟨hcached, hexpired⟩ := hcached
  have hsession : p.session = p'.session := by
    rw [← heq]
    split_ifs
    · rfl
    · rfl
  have hcompleted : p'.returnFd = none := by
    rw [← hp.completed, ← heq]
    split_ifs
    · rfl
    · rfl
  have hfresh : n ≤ p'.index := by
    by_contra hlt
    exact of_decide_eq_true hexpired ⟨p', hget, hcompleted, by omega⟩
  rw [hsession] at hcached
  refine ⟨p', ⟨hget, hcached, hcompleted⟩, hfresh, ?_⟩
  rw [← heq, if_pos ⟨(h.mem_cached hget).mpr hcached, hcompleted, hfresh⟩]

/-- The values of `max` are the new indexes of what is kept. -/
theorem Ordered.mem_rebased (h : u.Ordered) {x : ℕ} :
    x ∈ u.rebased n ↔ ∃ e p, u.Kept e p ∧ n ≤ p.index ∧ x = p.index - n := by
  unfold rebased
  rw [List.mem_filterMap]
  constructor
  · rintro ⟨e, hmem, hbind⟩
    obtain ⟨p, hget, hp⟩ := Option.bind_eq_some_iff.mp hbind
    split_ifs at hp with hfresh
    exact ⟨e, p, ⟨hget, (h.mem_cached hget).mp hmem, hfresh.1⟩, hfresh.2, (Option.some.inj hp).symm⟩
  · rintro ⟨e, p, hp, hle, rfl⟩
    refine ⟨e, (h.mem_cached hp.entry).mpr hp.cached, ?_⟩
    rw [hp.entry, Option.bind_some, if_pos ⟨hp.completed, hle⟩]

@[simp] theorem responded_retire (u : User ι) : (u.retire n).responded = u.responded := by
  unfold User.retire
  split_ifs
  · rfl
  · rfl

/-- After `retire_response` the bound holds again. -/
theorem Ordered.retire (h : u.Ordered) (hindex : 0 < n → u.index ≤ n * 2) :
    (u.retire n).Sound n := by
  rcases Nat.lt_or_ge u.index (n * 2) with hlt | hold
  · rw [retire_of_lt hlt]
    exact { h with bound := fun _ => by omega }
  have hindexes : (u.retire n).index = (u.rebased n).foldl max 0 + 1 := by
    unfold User.retire
    rw [if_pos hold]
  refine ⟨⟨fun session e he => ?_, fun e p hget => ?_, fun e p hp => ?_,
    fun e e' p p' hp hp' heq => ?_, fun e p hp => ?_, fun e p hget => ?_⟩, fun hn => ?_⟩
  · rw [get_retire session hold, Option.filter_eq_some_iff] at he
    obtain ⟨p, hget, hsession⟩ := h.known session e he.1
    rw [entries_retire e hold, hget]
    refine ⟨_, rfl, ?_⟩
    dsimp only
    split_ifs
    · exact hsession
    · exact hsession
  · obtain ⟨p', hget', index, rfl⟩ := exists_entry_of_retire hget
    exact h.ready e p' hget'
  · obtain ⟨p', hp', hle, rfl⟩ := h.kept_of_retire hold hp
    rw [hindexes]
    exact Nat.lt_succ_of_le (le_foldl_max (.inr (h.mem_rebased.mpr ⟨e, p', hp', hle, rfl⟩)))
  · obtain ⟨q, hq, hle, rfl⟩ := h.kept_of_retire hold hp
    obtain ⟨q', hq', hle', rfl⟩ := h.kept_of_retire hold hp'
    dsimp only at heq
    exact h.apart e e' q q' hq hq' (by omega)
  · obtain ⟨q, hq, hle, rfl⟩ := h.kept_of_retire hold hp
    obtain ⟨hstamp, hage⟩ := h.stamp e q hq
    have hmax : (u.rebased n).foldl max 0 ≤ u.index - 1 - n := by
      apply foldl_max_le (Nat.zero_le _)
      intro x hx
      obtain ⟨e', q', hq', hle', rfl⟩ := h.mem_rebased.mp hx
      have := h.older e' q' hq'
      omega
    have := h.older e q hq
    rw [hindexes, responded_retire]
    dsimp only
    omega
  · obtain ⟨p', hget', index, rfl⟩ := exists_entry_of_retire hget
    exact h.sends e p' hget'
  · have hmax : (u.rebased n).foldl max 0 ≤ n - 1 := by
      apply foldl_max_le (Nat.zero_le _)
      intro x hx
      obtain ⟨e', q', hq', hle', rfl⟩ := h.mem_rebased.mp hx
      have := h.older e' q' hq'
      have := hindex hn
      omega
    rw [hindexes]
    omega

/-- A response that `retire_response` takes out is old. -/
theorem Ordered.kept_retire (h : u.Ordered) {e : ℕ} {p : Entry ι} (hp : u.Kept e p) :
    (∃ q, (u.retire n).Kept e q ∧ q.session = p.session ∧ q.response = p.response) ∨
      n + p.stamp ≤ u.responded := by
  rcases Nat.lt_or_ge u.index (n * 2) with hlt | hold
  · rw [retire_of_lt hlt]
    exact .inl ⟨p, hp, rfl, rfl⟩
  rcases Nat.lt_or_ge p.index n with hexpired | hfresh
  · right
    obtain ⟨hstamp, hage⟩ := h.stamp e p hp
    omega
  · left
    refine ⟨{ p with index := p.index - n }, ⟨?_, ?_, hp.completed⟩, rfl, rfl⟩
    · rw [entries_retire e hold, hp.entry, Option.map_some,
        if_pos ⟨(h.mem_cached hp.entry).mpr hp.cached, hp.completed, hfresh⟩]
    · rw [get_retire p.session hold, hp.cached]
      apply Option.filter_eq_some_iff.mpr
      refine ⟨rfl, decide_eq_true ?_⟩
      rintro ⟨p', hget, -, hlt⟩
      obtain rfl := Option.some.inj (hp.entry.symm.trans hget)
      omega

/-! ## The steps of a user -/

/-- Only these four fields matter. -/
theorem Sound.congr {u' : User ι} (h : u.Sound n) (hentries : u'.entries = u.entries)
    (hresponse : u'.response = u.response) (hindex : u'.index = u.index)
    (hresponded : u'.responded = u.responded) : u'.Sound n := by
  have hkept : ∀ e p, u'.Kept e p → u.Kept e p := by
    intro e p hp
    exact ⟨hentries ▸ hp.entry, hresponse ▸ hp.cached, hp.completed⟩
  refine ⟨⟨?_, ?_, fun e p hp => ?_, fun e e' p p' hp hp' => ?_, fun e p hp => ?_, ?_⟩, ?_⟩
  · rw [hentries, hresponse]
    exact h.known
  · rw [hentries]
    exact h.ready
  · rw [hindex]
    exact h.older e p (hkept e p hp)
  · exact h.apart e e' p p' (hkept e p hp) (hkept e' p' hp')
  · rw [hindex, hresponded]
    exact h.stamp e p (hkept e p hp)
  · rw [hentries]
    exact h.sends
  · rw [hindex]
    exact h.bound

/-- The entry under a session is taken out. -/
theorem Sound.drop (h : u.Sound n) (session : ℕ) :
    { u with response := u.response.set session none }.Sound n := by
  have hget : ∀ k e, (u.response.set session none).get k = some e → u.response.get k = some e := by
    intro k e hk
    rw [Table.get_set] at hk
    split_ifs at hk
    exact hk
  have hkept : ∀ e p, User.Kept { u with response := u.response.set session none } e p →
      u.Kept e p := fun e p hp => ⟨hp.entry, hget _ e hp.cached, hp.completed⟩
  exact ⟨⟨fun k e hk => h.known k e (hget k e hk), h.ready,
    fun e p hp => h.older e p (hkept e p hp),
    fun e e' p p' hp hp' => h.apart e e' p p' (hkept e p hp) (hkept e' p' hp'),
    fun e p hp => h.stamp e p (hkept e p hp), h.sends⟩, h.bound⟩

theorem Kept.drop {e session : ℕ} {p : Entry ι} (hp : u.Kept e p) (hne : p.session ≠ session) :
    User.Kept { u with response := u.response.set session none } e p :=
  ⟨hp.entry, (Table.get_set_of_ne hne).trans hp.cached, hp.completed⟩

theorem kept_of_start {fd session e : ℕ} {p : Entry ι} (hp : (u.start fd session).Kept e p) :
    u.Kept e p := by
  rcases getElem?_concat_cases hp.entry with hget | ⟨rfl, rfl⟩
  · refine ⟨hget, ?_, hp.completed⟩
    have hcached := hp.cached
    change (u.response.set session (some u.entries.length)).get p.session = some e at hcached
    rw [Table.get_set] at hcached
    split_ifs at hcached
    · have hlt := (List.getElem?_eq_some_iff.mp hget).1
      have := Option.some.inj hcached
      omega
    · exact hcached
  · cases hp.completed

/-- The session of a request that starts a run has no entry. -/
theorem Sound.start (h : u.Sound n) (fd session : ℕ) : (u.start fd session).Sound n := by
  refine ⟨⟨fun k e hk => ?_, fun e p hget => ?_, fun e p hp => h.older e p (kept_of_start hp),
    fun e e' p p' hp hp' => h.apart e e' p p' (kept_of_start hp) (kept_of_start hp'),
    fun e p hp => h.stamp e p (kept_of_start hp), fun e p hget => ?_⟩, h.bound⟩
  · change (u.response.set session (some u.entries.length)).get k = some e at hk
    show ∃ p, (u.entries ++ [_])[e]? = some p ∧ _
    rw [Table.get_set] at hk
    split_ifs at hk with hsession
    · obtain rfl := Option.some.inj hk
      exact ⟨_, List.getElem?_concat_length, hsession.symm⟩
    · obtain ⟨p, hget, hp⟩ := h.known k e hk
      exact ⟨p, getElem?_concat_of_eq_some hget, hp⟩
  · rcases getElem?_concat_cases hget with hget | ⟨-, rfl⟩
    · exact h.ready e p hget
    · exact ⟨nofun, fun hne => absurd rfl hne⟩
  · rcases getElem?_concat_cases hget with hget | ⟨-, rfl⟩
    · exact h.sends e p hget
    · exact ⟨Nat.zero_le 1, fun _ => Nat.zero_lt_one⟩

theorem Kept.start {fd session e : ℕ} {p : Entry ι} (hp : u.Kept e p) (hne : p.session ≠ session) :
    (u.start fd session).Kept e p := by
  exact ⟨getElem?_concat_of_eq_some hp.entry, (Table.get_set_of_ne hne).trans hp.cached,
    hp.completed⟩

theorem Ordered.known_modify (h : u.Ordered) {e : ℕ} {p : Entry ι} {f : Entry ι → Entry ι}
    (hget : u.entries[e]? = some p) (hsession : (f p).session = p.session) {session e' : ℕ}
    (hcached : u.response.get session = some e') :
    ∃ p', (u.entries.modify e f)[e']? = some p' ∧ p'.session = session := by
  obtain ⟨q, hq, hk⟩ := h.known session e' hcached
  by_cases he : e' = e
  · subst he
    obtain rfl := Option.some.inj (hget.symm.trans hq)
    rw [List.getElem?_modify_eq, hget]
    exact ⟨f p, rfl, hsession.trans hk⟩
  · rw [List.getElem?_modify_ne f _ (Ne.symm he)]
    exact ⟨q, hq, hk⟩

/-- A running entry is asked for again. -/
theorem Sound.wait (h : u.Sound n) {e : ℕ} {p : Entry ι} {f : Entry ι → Entry ι}
    (hget : u.entries[e]? = some p) (hsession : (f p).session = p.session)
    (hresponse : (f p).response = none) (hreturn : (f p).returnFd ≠ none)
    (hsends : (f p).sends < (f p).requests) :
    User.Sound n { u with entries := u.entries.modify e f } := by
  have hentry := fun (e' : ℕ) p' => getElem?_modify_cases (j := e') (b := p') (f := f) hget
  have hkept : ∀ e' p', User.Kept { u with entries := u.entries.modify e f } e' p' →
      u.Kept e' p' := by
    intro e' p' hp'
    rcases hentry e' p' hp'.entry with ⟨-, rfl⟩ | ⟨-, hget'⟩
    · exact absurd hp'.completed hreturn
    · exact ⟨hget', hp'.cached, hp'.completed⟩
  refine ⟨⟨fun k e' hk => ?_, fun e' p' hget' => ?_, fun e p hp => h.older e p (hkept e p hp),
    fun e e' p p' hp hp' => h.apart e e' p p' (hkept e p hp) (hkept e' p' hp'),
    fun e p hp => h.stamp e p (hkept e p hp), fun e' p' hget' => ?_⟩, h.bound⟩
  · exact h.known_modify hget hsession hk
  · rcases hentry e' p' hget' with ⟨-, rfl⟩ | ⟨-, hget'⟩
    · exact ⟨fun h => absurd h hreturn, fun h => absurd hresponse h⟩
    · exact h.ready e' p' hget'
  · rcases hentry e' p' hget' with ⟨-, rfl⟩ | ⟨-, hget'⟩
    · exact ⟨hsends.le, fun _ => hsends⟩
    · exact h.sends e' p' hget'

theorem Kept.modify {e e' : ℕ} {p : Entry ι} {f : Entry ι → Entry ι} (hp : u.Kept e' p)
    (hne : e' ≠ e) : User.Kept { u with entries := u.entries.modify e f } e' p :=
  ⟨(List.getElem?_modify_ne f _ (Ne.symm hne)).trans hp.entry, hp.cached, hp.completed⟩

/-- The two changes of an entry are one. -/
theorem finish_modify (e : ℕ) (f : Entry ι → Entry ι) (sent : Bool) :
    User.finish { u with entries := u.entries.modify e f } n e sent =
      User.retire { u with
        index := u.index + 1
        responded := u.responded + 1
        entries := u.entries.modify e fun p => (f p).finish (u.responded + 1) sent } n := by
  unfold User.finish
  dsimp only
  rw [List.modify_modify_eq]
  rfl

section

variable {e : ℕ} {p : Entry ι} {f : Entry ι → Entry ι} {sent : Bool}
  (h : u.Sound n) (hget : u.entries[e]? = some p) (hsession : (f p).session = p.session)
  (hresponse : (f p).response ≠ none) (hindex : (f p).index = u.index)
  (hsends : (f p).sends < (f p).requests)

include h hget hsession hresponse hindex hsends

/-- A response is completed, or sent again. -/
theorem Sound.ordered_finish :
    User.Ordered { u with
      index := u.index + 1
      responded := u.responded + 1
      entries := u.entries.modify e fun p => (f p).finish (u.responded + 1) sent } := by
  have hle : (f p).sends + sent.toNat ≤ (f p).requests := by
    cases sent with
    | false => exact hsends.le
    | true => exact hsends
  have hentry := fun (e' : ℕ) p' => getElem?_modify_cases (j := e') (b := p')
    (f := fun p => (f p).finish (u.responded + 1) sent) hget
  have hkept : ∀ e' p', User.Kept { u with
      index := u.index + 1
      responded := u.responded + 1
      entries := u.entries.modify e fun p => (f p).finish (u.responded + 1) sent } e' p' →
      (e' = e ∧ p' = (f p).finish (u.responded + 1) sent) ∨ (e' ≠ e ∧ u.Kept e' p') := by
    intro e' p' hp'
    rcases hentry e' p' hp'.entry with heq | ⟨hne, hget'⟩
    · exact .inl heq
    · exact .inr ⟨hne, hget', hp'.cached, hp'.completed⟩
  have hnew : ((f p).finish (u.responded + 1) sent).index = u.index := hindex
  refine ⟨fun k e' hk => h.known_modify (f := fun p => (f p).finish (u.responded + 1) sent) hget
    hsession hk, fun e' p' hget' => ?_, fun e' p' hp' => ?_, fun e₁ e₂ p₁ p₂ h₁ h₂ heq => ?_,
    fun e' p' hp' => ?_, fun e' p' hget' => ?_⟩
  · rcases hentry e' p' hget' with ⟨-, rfl⟩ | ⟨-, hget'⟩
    · exact ⟨fun _ => hresponse, fun _ => rfl⟩
    · exact h.ready e' p' hget'
  · show p'.index < u.index + 1
    rcases hkept e' p' hp' with ⟨-, rfl⟩ | ⟨-, hp'⟩
    · omega
    · have := h.older e' p' hp'
      omega
  · rcases hkept e₁ p₁ h₁ with ⟨rfl, rfl⟩ | ⟨-, h₁⟩
    · rcases hkept e₂ p₂ h₂ with ⟨rfl, -⟩ | ⟨-, h₂⟩
      · rfl
      · have := h.older e₂ p₂ h₂
        omega
    · have := h.older e₁ p₁ h₁
      rcases hkept e₂ p₂ h₂ with ⟨rfl, rfl⟩ | ⟨-, h₂⟩
      · omega
      · exact h.apart e₁ e₂ p₁ p₂ h₁ h₂ heq
  · show p'.stamp ≤ u.responded + 1 ∧ u.index + 1 + p'.stamp ≤ p'.index + 1 + (u.responded + 1)
    rcases hkept e' p' hp' with ⟨-, rfl⟩ | ⟨-, hp'⟩
    · have hstamp : ((f p).finish (u.responded + 1) sent).stamp = u.responded + 1 := rfl
      omega
    · have := h.stamp e' p' hp'
      omega
  · rcases hentry e' p' hget' with ⟨-, rfl⟩ | ⟨-, hget'⟩
    · exact ⟨hle, fun hnone => absurd hnone hresponse⟩
    · exact h.sends e' p' hget'

theorem Sound.finish_modify :
    (User.finish { u with entries := u.entries.modify e f } n e sent).Sound n := by
  rw [User.finish_modify]
  apply (h.ordered_finish hget hsession hresponse hindex hsends).retire
  intro hn
  have := h.bound hn
  show u.index + 1 ≤ n * 2
  omega

/-- What was kept is kept, or it is old. -/
theorem Sound.kept_finish_modify {e' : ℕ} {p' : Entry ι} (hp' : u.Kept e' p')
    (hsame : e' = e → (f p).response = p'.response) :
    (∃ q, (User.finish { u with entries := u.entries.modify e f } n e sent).Kept e' q ∧
      q.session = p'.session ∧ q.response = p'.response) ∨
    n + p'.stamp ≤ u.responded + 1 := by
  rw [User.finish_modify]
  have hordered : User.Ordered { u with
      index := u.index + 1
      responded := u.responded + 1
      entries := u.entries.modify e fun p => (f p).finish (u.responded + 1) sent } :=
    h.ordered_finish hget hsession hresponse hindex hsends
  by_cases he : e' = e
  · subst he
    obtain rfl := Option.some.inj (hget.symm.trans hp'.entry)
    have hkept := hordered.kept_retire (n := n) (e := e')
      (p := (f p).finish (u.responded + 1) sent) ⟨?_, ?_, rfl⟩
    · rcases hkept with ⟨q, hq, hqsession, hqresponse⟩ | hold
      · exact .inl ⟨q, hq, hqsession.trans hsession, hqresponse.trans (hsame rfl)⟩
      · -- its new stamp is the highest
        right
        have hstamp := (h.stamp e' p hp').1
        have : n + (u.responded + 1) ≤ u.responded + 1 := hold
        omega
    · show (u.entries.modify e' _)[e']? = _
      rw [List.getElem?_modify_eq, hget]
      rfl
    · show u.response.get (f p).session = some e'
      rw [hsession]
      exact hp'.cached
  · exact hordered.kept_retire ⟨(List.getElem?_modify_ne _ _ (Ne.symm he)).trans hp'.entry,
      hp'.cached, hp'.completed⟩

end

/-! ## Requests and responses -/

@[simp] theorem responded_finish (e : ℕ) (sent : Bool) :
    (u.finish n e sent).responded = u.responded + 1 := by
  unfold User.finish
  rw [responded_retire]

theorem find_eq_some {session e : ℕ} {p : Entry ι} :
    u.find session = some (e, p) ↔ u.response.get session = some e ∧ u.entries[e]? = some p := by
  unfold find
  simp only [Option.bind_eq_bind, Option.bind_eq_some_iff, Option.pure_def, Option.some.injEq,
    Prod.mk.injEq]
  constructor
  · rintro ⟨e', he, p', hp, rfl, rfl⟩
    exact ⟨he, hp⟩
  · rintro ⟨he, hp⟩
    exact ⟨e, he, p, hp, rfl, rfl⟩

theorem Ordered.find_session (h : u.Ordered) {session e : ℕ} {p : Entry ι}
    (hfind : u.find session = some (e, p)) : p.session = session := by
  obtain ⟨hcached, hget⟩ := find_eq_some.mp hfind
  obtain ⟨p', hget', hp'⟩ := h.known session e hcached
  obtain rfl := Option.some.inj (hget.symm.trans hget')
  exact hp'

/-- What is asked for again has been sent less often than it has been asked for. -/
theorem Ordered.sends_lt (h : u.Ordered) {e : ℕ} {p : Entry ι} (hget : u.entries[e]? = some p) :
    p.sends < p.requests + 1 := Nat.lt_succ_of_le (h.sends e p hget).1

section

variable [DecidableEq ι] {fd session : ℕ}

theorem Sound.request (h : u.Sound n) (fd session : ℕ) : (u.request n fd session).1.Sound n := by
  unfold User.request
  split
  · exact h.start fd session
  · rename_i e p hfind
    obtain ⟨-, hget⟩ := find_eq_some.mp hfind
    dsimp only
    split_ifs with hversion
    · split
      · exact h.drop session
      · exact (h.drop session).start fd session
    · split
      · rename_i hnone
        exact h.wait hget rfl hnone nofun (h.sends_lt hget)
      · rename_i response hsome
        exact h.finish_modify hget rfl (hsome ▸ nofun) rfl (h.sends_lt hget)

/-- A request takes a response out only when its session is reused, or the response is old. -/
theorem Sound.kept_request (h : u.Sound n) {e : ℕ} {p : Entry ι} (hp : u.Kept e p) :
    (∃ q, (u.request n fd session).1.Kept e q ∧ q.session = p.session ∧
      q.response = p.response) ∨
    p.session = session ∧ p.version = some u.version ∨
    n + p.stamp ≤ (u.request n fd session).1.responded := by
  unfold User.request
  split
  · rename_i hfind
    left
    refine ⟨p, hp.start ?_, rfl, rfl⟩
    rintro rfl
    rw [find_eq_some.mpr ⟨hp.cached, hp.entry⟩] at hfind
    cases hfind
  · rename_i e' p' hfind
    have hsession := h.find_session hfind
    obtain ⟨hcached, hget⟩ := find_eq_some.mp hfind
    have hsame : p.session = session → e = e' ∧ p = p' := by
      rintro rfl
      obtain rfl := Option.some.inj (hp.cached.symm.trans hcached)
      exact ⟨rfl, Option.some.inj (hp.entry.symm.trans hget)⟩
    dsimp only
    split_ifs with hversion
    · by_cases hreused : p.session = session
      · obtain ⟨-, rfl⟩ := hsame hreused
        exact .inr (.inl ⟨hreused, hversion⟩)
      · left
        split
        · exact ⟨p, hp.drop hreused, rfl, rfl⟩
        · exact ⟨p, (hp.drop hreused).start hreused, rfl, rfl⟩
    · split
      · rename_i hnone
        left
        refine ⟨p, hp.modify fun he => ?_, rfl, rfl⟩
        subst he
        obtain rfl := Option.some.inj (hp.entry.symm.trans hget)
        exact (h.ready e p hp.entry).mp hp.completed hnone
      · rename_i response hsome
        rw [responded_finish]
        refine (h.kept_finish_modify hget rfl (hsome ▸ nofun) rfl (h.sends_lt hget) hp ?_).imp_right
          .inr
        · rintro rfl
          obtain rfl := Option.some.inj (hp.entry.symm.trans hget)
          rfl

end

theorem Sound.complete (h : u.Sound n) {e : ℕ} {p : Entry ι} (hget : u.entries[e]? = some p)
    (hrun : p.response = none) (response : List UInt8) (sent : Bool) :
    (u.complete n e response sent).Sound n :=
  h.finish_modify (f := fun p => { p with
    response := some response
    version := some u.version
    index := u.index }) hget rfl nofun rfl ((h.sends e p hget).2 hrun)

theorem Sound.kept_complete (h : u.Sound n) {e e' : ℕ} {p p' : Entry ι}
    (hget : u.entries[e]? = some p) (hrun : p.response = none) (response : List UInt8)
    (sent : Bool) (hp' : u.Kept e' p') :
    (∃ q, (u.complete n e response sent).Kept e' q ∧ q.session = p'.session ∧
      q.response = p'.response) ∨
    n + p'.stamp ≤ (u.complete n e response sent).responded := by
  unfold User.complete
  rw [responded_finish]
  refine h.kept_finish_modify (f := fun p => { p with
    response := some response
    version := some u.version
    index := u.index }) hget rfl nofun rfl ((h.sends e p hget).2 hrun) hp' ?_
  rintro rfl
  obtain rfl := Option.some.inj (hp'.entry.symm.trans hget)
  exact absurd hrun ((h.ready e' p' hp'.entry).mp hp'.completed)

/-- A user that has just logged in. -/
theorem Sound.login [Zero ι] (n : ℕ) (username secret : List UInt8) :
    User.Sound n (⟨secret, (0 : ι), 0, username, .empty, none, none, [], 0⟩ : User ι) where
  known session e h := by
    change (Table.empty : Table ℕ ℕ).get session = some e at h
    rw [Table.get_empty] at h
    cases h
  ready := nofun
  older e p hp := nomatch hp.entry
  apart e e' p p' hp := nomatch hp.entry
  stamp e p hp := nomatch hp.entry
  sends := nofun
  bound hn := Nat.mul_pos Nat.two_pos hn

/-! ## Runs that go on -/

/-- The run of the entry has not ended. -/
def Running (u : User ι) (e : ℕ) : Prop := ∃ p, u.entries[e]? = some p ∧ p.response = none

theorem Running.retire {e : ℕ} (h : u.Running e) : (u.retire n).Running e := by
  obtain ⟨p, hget, hnone⟩ := h
  rcases Nat.lt_or_ge u.index (n * 2) with hlt | hold
  · rw [retire_of_lt hlt]
    exact ⟨p, hget, hnone⟩
  · unfold Running
    rw [entries_retire e hold, hget]
    refine ⟨_, rfl, ?_⟩
    dsimp only
    split_ifs
    · exact hnone
    · exact hnone

theorem Running.modify {e e' : ℕ} {f : Entry ι → Entry ι} (h : u.Running e')
    (hf : ∀ p, p.response = none → e' = e → (f p).response = none) :
    User.Running { u with entries := u.entries.modify e f } e' := by
  obtain ⟨p, hget, hnone⟩ := h
  show ∃ p, (u.entries.modify e f)[e']? = some p ∧ _
  by_cases he : e' = e
  · subst he
    rw [List.getElem?_modify_eq, hget]
    exact ⟨f p, rfl, hf p hnone rfl⟩
  · rw [List.getElem?_modify_ne f _ (Ne.symm he)]
    exact ⟨p, hget, hnone⟩

theorem Running.finish {e e' : ℕ} {sent : Bool} (h : u.Running e') :
    (u.finish n e sent).Running e' := by
  have hmodify := h.modify (e := e) (f := Entry.finish (u.responded + 1) sent) fun p hp _ => hp
  exact Running.retire hmodify

theorem Running.start {e fd session : ℕ} (h : u.Running e) : (u.start fd session).Running e := by
  obtain ⟨p, hget, hnone⟩ := h
  exact ⟨p, getElem?_concat_of_eq_some hget, hnone⟩

theorem Running.complete {e e' : ℕ} {response : List UInt8} {sent : Bool} (h : u.Running e')
    (hne : e' ≠ e) : (u.complete n e response sent).Running e' := by
  have hmodify := h.modify (e := e) (f := fun p => { p with
    response := some response
    version := some u.version
    index := u.index }) fun p _ he => absurd he hne
  exact hmodify.finish

theorem Running.request [DecidableEq ι] {e fd session : ℕ} (h : u.Running e) :
    (u.request n fd session).1.Running e := by
  unfold User.request
  split
  · exact h.start
  · rename_i e' p hfind
    dsimp only
    split_ifs
    · split
      · exact h
      · exact Running.start (u := { u with response := u.response.set session none }) h
    · have hmodify := h.modify (e := e') (f := fun p => { p with
        returnFd := some fd
        version := some u.version
        index := u.index
        requests := p.requests + 1 }) fun p hp _ => hp
      split
      · exact hmodify
      · exact hmodify.finish

theorem running_start (fd session : ℕ) : (u.start fd session).Running u.entries.length :=
  ⟨_, List.getElem?_concat_length, rfl⟩

/-- A request that calls `request_handler` has a new entry. -/
theorem running_request [DecidableEq ι] {fd session : ℕ}
    (h : (u.request n fd session).2 = .run) :
    (u.request n fd session).1.Running u.entries.length := by
  unfold User.request at *
  split
  · exact running_start fd session
  · rename_i e p hfind
    rw [hfind] at h
    dsimp only at *
    split_ifs at *
    · split
      · rename_i hnone
        rw [hnone] at h
        cases h
      · exact running_start fd session
    · split
      · rename_i hnone
        rw [hnone] at h
        cases h
      · rename_i response hsome
        rw [hsome] at h
        cases h

/-! ## How many are kept -/

/-- The entries in the cache that have been completed. -/
def completed (u : User ι) : List ℕ :=
  u.cached.filter fun e => decide (∃ p ∈ u.entries[e]?, p.returnFd = none)

theorem Ordered.mem_completed (h : u.Ordered) {e : ℕ} :
    e ∈ u.completed ↔ ∃ p, u.Kept e p := by
  unfold completed
  rw [List.mem_filter]
  constructor
  · rintro ⟨hmem, hcompleted⟩
    obtain ⟨p, hget, hreturn⟩ := of_decide_eq_true hcompleted
    exact ⟨p, hget, (h.mem_cached hget).mp hmem, hreturn⟩
  · rintro ⟨p, hp⟩
    exact ⟨(h.mem_cached hp.entry).mpr hp.cached, decide_eq_true ⟨p, hp.entry, hp.completed⟩⟩

theorem Ordered.nodup_cached (h : u.Ordered) : u.cached.Nodup := by
  apply List.Nodup.map_on
  · rintro ⟨session, e⟩ hx ⟨session', e'⟩ hy heq
    obtain rfl : e = e' := heq
    obtain ⟨p, hget, rfl⟩ := h.known session e (Table.mem_pairs.mp hx)
    obtain ⟨p', hget', rfl⟩ := h.known session' e (Table.mem_pairs.mp hy)
    obtain rfl := Option.some.inj (hget.symm.trans hget')
    rfl
  · exact (Table.nodup_pairs u.response).of_map

def indexOf (u : User ι) (e : ℕ) : ℕ := (u.entries[e]?.map Entry.index).getD 0

/-- Their indexes differ, and are lower than the user's. -/
theorem Ordered.length_completed (h : u.Ordered) : u.completed.length ≤ u.index := by
  have hindex : ∀ e p, u.Kept e p → u.indexOf e = p.index := by
    intro e p hp
    unfold indexOf
    rw [hp.entry]
    rfl
  have hcard : u.completed.toFinset.card ≤ (Finset.range u.index).card := by
    apply Finset.card_le_card_of_injOn u.indexOf
    · intro e he
      obtain ⟨p, hp⟩ := h.mem_completed.mp (List.mem_toFinset.mp he)
      rw [Finset.coe_range, Set.mem_Iio, hindex e p hp]
      exact h.older e p hp
    · intro e he e' he' heq
      obtain ⟨p, hp⟩ := h.mem_completed.mp (List.mem_toFinset.mp he)
      obtain ⟨p', hp'⟩ := h.mem_completed.mp (List.mem_toFinset.mp he')
      rw [hindex e p hp, hindex e' p' hp'] at heq
      exact h.apart e e' p p' hp hp' heq
  have hnodup : u.completed.Nodup := h.nodup_cached.filter _
  rwa [List.toFinset_card_of_nodup hnodup, Finset.card_range] at hcard

end User

end SkynetEureka.MsgServer
