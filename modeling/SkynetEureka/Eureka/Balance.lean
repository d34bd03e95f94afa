import SkynetEureka.Eureka.Updates

/-!
# The answers of `getwebclient`

The rotation index goes over the webclients of the first client that `pairs` gives, and each client
has one. Without an update in between, all answers name the same instance.
-/

namespace SkynetEureka.Eureka.Ribbon

open Lib

variable {s s' : State} {n : ℕ}

namespace State

/-- The answers of `n` calls of `cmd.getwebclient` one after another -/
def answers (s : State) : ℕ → List (Option (Option ℕ × Name × ℤ))
  | 0 => []
  | n + 1 => s.getwebclient.2 :: s.getwebclient.1.answers n

/-- What an answer for the instance `id` is: one of its webclients, with its address and its port -/
def Names (s : State) (id : Name) (answer : Option (Option ℕ × Name × ℤ)) : Prop :=
  ∃ client webclient, s.feignclients.get id = some client ∧ webclient ∈ client.service ∧
    answer = some (some webclient, client.server.ipAddr, client.server.port)

/-- `n` calls name `n` instances, each with a webclient of its own. -/
def Balanced (s : State) (n : ℕ) : Prop :=
  (s.answers n).Nodup ∧ ∃ ids : List Name, ids.Nodup ∧ List.Forall₂ s.Names ids (s.answers n)

end State

/-! ## Each client has one webclient -/

/-- A client has all its webclients when it is in the table, and not before. -/
structure Complete (s : State) : Prop where
  clients : ∀ id client, s.feignclients.get id = some client → client.service.length = maxClient
  handlers : ∀ h ∈ s.handlers, h.client.service.length < maxClient

theorem Complete.goThrough (hs : Complete s) (number : ℕ) (instances rest : List Server) :
    Complete (s.goThrough number instances rest) := by
  obtain ⟨t, ht, hcases⟩ := goThrough_cases s number instances rest
  have hclients : ∀ id client, t.get id = some client → client.service.length = maxClient := by
    intro id client hget
    rw [ht] at hget
    obtain ⟨old, hold, rfl⟩ := Option.map_eq_some_iff.mp hget
    exact hs.clients id old hold
  rcases hcases with ⟨-, heq⟩ | ⟨server, left, -, heq⟩
  · rw [heq]
    refine ⟨fun id client hget => ?_, hs.handlers⟩
    have hfilter := (Table.get_filter (t := t) (k := id)).symm.trans hget
    exact hclients id client (Option.filter_eq_some_iff.mp hfilter).1
  · rw [heq]
    refine ⟨hclients, fun h hmem => ?_⟩
    rcases List.mem_append.mp hmem with hold | hnew
    · exact hs.handlers h hold
    · rw [List.mem_singleton.mp hnew]
      exact Nat.one_pos

theorem Complete.launched {h : Handler} (hs : Complete s) (hmem : h ∈ s.handlers) :
    Complete (s.launched h) := by
  have hlt := hs.handlers h hmem
  have hlen : (h.client.service ++ [s.started]).length = maxClient := by
    rw [List.length_append, List.length_singleton]
    unfold maxClient at hlt ⊢
    omega
  unfold State.launched
  dsimp only
  rw [if_neg (by rw [hlen]; exact lt_irrefl _)]
  refine Complete.goThrough ⟨fun id client hget => ?_, fun g hg => ?_⟩ _ _ _
  · dsimp only at hget
    by_cases hid : id = h.client.server.instanceId
    · rw [hid, Table.get_set_self] at hget
      cases hget
      exact hlen
    · rw [Table.get_set_of_ne hid] at hget
      exact hs.clients id client hget
  · exact hs.handlers g (List.mem_of_mem_erase hg)

theorem Complete.getwebclient (hs : Complete s) : Complete s.getwebclient.1 := by
  unfold State.getwebclient
  split
  · exact hs
  · exact ⟨hs.clients, hs.handlers⟩

theorem Complete.step {a : Action} (hs : Complete s) (hstep : s.step a = some s') :
    Complete s' := by
  cases a with
  | update instances =>
    cases hstep
    have hnew : Complete { s with updates := s.updates ++ [instances] } := ⟨hs.clients, hs.handlers⟩
    exact hnew.goThrough _ _ _
  | launched number ok =>
    unfold State.step at hstep
    cases hfind : s.handlers.find? (·.number = number) with
    | none => simp [hfind] at hstep
    | some h =>
      have hmem := List.mem_of_find?_eq_some hfind
      simp only [hfind, Option.some.injEq] at hstep
      subst hstep
      split
      · exact hs.launched hmem
      · exact ⟨hs.clients, fun g hg => hs.handlers g (List.mem_of_mem_erase hg)⟩
  | getwebclient =>
    cases hstep
    exact hs.getwebclient

/-! ## The calls -/

/-- A call leaves the clients as they are. -/
theorem pairs_getwebclient : s.getwebclient.1.feignclients = s.feignclients := by
  unfold State.getwebclient
  split <;> rfl

/-- The first client of the table answers, with its only webclient. -/
theorem getwebclient_eq (hs : Complete s) {id : Name} {client : FeignClient}
    {rest : List (Name × FeignClient)} (hpairs : s.feignclients.pairs = (id, client) :: rest) :
    ∃ webclient, client.service = [webclient] ∧
      s.getwebclient.2 = some (some webclient, client.server.ipAddr, client.server.port) := by
  have hget : s.feignclients.get id = some client :=
    Table.mem_pairs.mp (by rw [hpairs]; exact List.mem_cons_self)
  obtain ⟨webclient, hservice⟩ := List.length_eq_one_iff.mp (hs.clients id client hget)
  refine ⟨webclient, hservice, ?_⟩
  unfold State.getwebclient
  rw [hpairs]
  dsimp only
  have hindex : (if s.balanceIndex > client.service.length then 1 else s.balanceIndex) - 1 = 0 := by
    rw [hservice, List.length_singleton]
    split <;> omega
  rw [hindex, hservice]
  rfl

/-- **The ribbon balances over its instances if and only if there is one.** -/
theorem balanced_iff {acts : List Action} (hrun : run State.step .init acts = some s)
    (hn : s.feignclients.pairs.length = n) (hpos : 0 < n) : s.Balanced n ↔ n = 1 := by
  have hinit : Complete .init := by
    refine ⟨fun id client hget => ?_, nofun⟩
    have hnone := (Table.get_empty (V := FeignClient) (k := id)).symm.trans hget
    cases hnone
  have hs := run_invariant_of_step (fun s a s' h hstep => h.step hstep) hinit hrun
  obtain ⟨⟨id, client⟩, rest, hpairs⟩ := List.exists_cons_of_length_pos (hn ▸ hpos)
  obtain ⟨webclient, hservice, hanswer⟩ := getwebclient_eq hs hpairs
  constructor
  · rintro ⟨hnodup, -⟩
    by_contra hne
    obtain ⟨m, rfl⟩ : ∃ m, n = m + 2 := ⟨n - 2, by omega⟩
    -- the second answer is the first one again
    have hpairs' : s.getwebclient.1.feignclients.pairs = (id, client) :: rest := by
      rw [pairs_getwebclient, hpairs]
    obtain ⟨webclient', hservice', hanswer'⟩ := getwebclient_eq hs.getwebclient hpairs'
    rw [hservice'] at hservice
    cases hservice
    unfold State.answers State.answers at hnodup
    rw [hanswer, hanswer'] at hnodup
    exact (List.nodup_cons.mp hnodup).1 List.mem_cons_self
  · rintro rfl
    have hget : s.feignclients.get id = some client :=
      Table.mem_pairs.mp (by rw [hpairs]; exact List.mem_cons_self)
    refine ⟨List.nodup_singleton _, [id], List.nodup_singleton _, ?_⟩
    refine .cons ⟨client, webclient, hget, ?_, hanswer⟩ .nil
    rw [hservice]
    exact List.mem_singleton_self _

theorem balanced_iff_one : ∃ s, run State.step .init [.update [first], .launched 0 true] = some s ∧
    s.Balanced 1 := by
  have hrun : run State.step .init [.update [first], .launched 0 true] = some _ := rfl
  exact ⟨_, hrun, (balanced_iff hrun rfl Nat.one_pos).mpr rfl⟩

/-- **Two instances, and two calls that name the same one** -/
theorem unbalanced : ¬∀ (acts : List Action) (s : State), run State.step .init acts = some s →
    ∀ n, s.feignclients.pairs.length = n → 0 < n → s.Balanced n := by
  intro hall
  have hbalanced := hall [.update [first, second], .launched 0 true, .launched 0 true] _ rfl 2 rfl
    Nat.two_pos
  exact absurd hbalanced.1 (by decide)

end SkynetEureka.Eureka.Ribbon
