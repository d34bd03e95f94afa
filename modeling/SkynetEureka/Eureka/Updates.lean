import SkynetEureka.Lib.Lists
import SkynetEureka.Eureka.Ribbon

/-!
# The table follows the registry

When the handlers of all updates are through, the clients are those of the last update
(`updates_followed`). Four things are in the way. A client that is taken out leaves its webclients
running: they do not accept the message "close". Two handlers may each start a webclient for one
instance, and the client of the first one is lost. A handler of an older update may be through last,
and it may write an address that the newest update has replaced.
-/

namespace SkynetEureka.Eureka.Ribbon

open Lib

/-! ## The instances of an update -/

/-- The names of the instances -/
def ids (instances : List Server) : List Name := instances.map (·.instanceId)

/-- What the update says of an instance: the last entry counts. -/
def entry (instances : List Server) (id : Name) : Option Server :=
  (instances.filter (·.instanceId = id)).getLast?

variable {instances instances' : List Server} {server : Server} {id : Name}

theorem entry_append :
    entry (instances ++ instances') id = (entry instances' id).or (entry instances id) := by
  unfold entry
  rw [List.filter_append, List.getLast?_append]

theorem entry_eq_none : entry instances id = none ↔ id ∉ ids instances := by
  unfold entry ids
  rw [List.getLast?_eq_none_iff, List.filter_eq_nil_iff, List.mem_map]
  constructor
  · rintro h ⟨server, hmem, heq⟩
    exact h server hmem (decide_eq_true heq)
  · intro h server hmem heq
    exact h ⟨server, hmem, of_decide_eq_true heq⟩

theorem entry_singleton :
    entry [server] id = if server.instanceId = id then some server else none := by
  unfold entry
  by_cases heq : server.instanceId = id
  · rw [List.filter_singleton, if_pos heq]
    simp [heq]
  · rw [List.filter_singleton, if_neg heq]
    simp [heq]

theorem mem_ids_append :
    id ∈ ids (instances ++ instances') ↔ id ∈ ids instances ∨ id ∈ ids instances' := by
  unfold ids
  rw [List.map_append, List.mem_append]

/-! ## The loop over the instances -/

/-- The instance has a client. -/
def State.Has (s : State) (id : Name) : Prop := s.feignclients.get id ≠ none

instance (s : State) (id : Name) : Decidable (s.Has id) :=
  inferInstanceAs (Decidable (s.feignclients.get id ≠ none))

/-- No client is there but for these instances. -/
def State.Lists (s : State) (instances : List Server) : Prop :=
  ∀ e ∈ s.feignclients.pairs, e.1 ∈ ids instances

instance (s : State) (instances : List Server) : Decidable (s.Lists instances) :=
  inferInstanceAs (Decidable (∀ e ∈ s.feignclients.pairs, e.1 ∈ ids instances))

/-- The instances that the loop comes to before it waits -/
def State.known (s : State) (rest : List Server) : List Server :=
  rest.takeWhile fun server => s.Has server.instanceId

/-- The instances from where it waits -/
def State.unknown (s : State) (rest : List Server) : List Server :=
  rest.dropWhile fun server => s.Has server.instanceId

/-- The client with what the list says of its instance -/
def FeignClient.renew (client : FeignClient) (instances : List Server) (id : Name) : FeignClient :=
  { client with server := (entry instances id).getD client.server }

variable {s s' : State} {client : FeignClient}

theorem renew_nil : client.renew [] id = client := rfl

/-- An instance in front of others changes nothing for them. -/
theorem renew_cons_of_ne (hne : server.instanceId ≠ id) :
    client.renew (server :: instances) id = client.renew instances id := by
  unfold FeignClient.renew
  rw [← List.singleton_append, entry_append, entry_singleton, if_neg hne, Option.or_none]

theorem renew_cons_self :
    client.renew (server :: instances) server.instanceId =
      FeignClient.renew { client with server := server } instances server.instanceId := by
  unfold FeignClient.renew
  rw [← List.singleton_append, entry_append, entry_singleton, if_pos rfl]
  cases entry instances server.instanceId with
  | none => rfl
  | some server' => rfl

theorem has_of_get (hget : s.feignclients.get id = some client) : s.Has id := by
  unfold State.Has
  rw [hget]
  exact nofun

theorem has_setServer (hget : s.feignclients.get server.instanceId = some client) :
    (s.setServer server client).Has id ↔ s.Has id := by
  unfold State.Has State.setServer
  dsimp only
  by_cases heq : id = server.instanceId
  · rw [heq, Table.get_set_self, hget]
    exact ⟨fun _ => nofun, fun _ => nofun⟩
  · rw [Table.get_set_of_ne heq]

/-- The loop renews the clients of the instances that it comes to, and ends or waits. -/
theorem goThrough_cases (s : State) (number : ℕ) (instances rest : List Server) :
    ∃ t : Table Name FeignClient,
      (∀ id, t.get id = (s.feignclients.get id).map (·.renew (s.known rest) id)) ∧
      (s.unknown rest = [] ∧ s.goThrough number instances rest =
          { s with feignclients := t }.removeOthers instances ∨
        ∃ server left, s.unknown rest = server :: left ∧ s.goThrough number instances rest =
          { s with
            feignclients := t
            handlers := s.handlers ++ [⟨number, instances, ⟨server, []⟩, left⟩] }) := by
  induction rest generalizing s with
  | nil =>
    refine ⟨s.feignclients, fun id => ?_, .inl ⟨rfl, rfl⟩⟩
    cases s.feignclients.get id with
    | none => rfl
    | some client => rfl
  | cons server rest ih =>
    cases hget : s.feignclients.get server.instanceId with
    | none =>
      have hnot : ¬ s.Has server.instanceId := not_not.mpr hget
      have hknown : s.known (server :: rest) = [] :=
        List.takeWhile_cons_of_neg (by simpa using hnot)
      have hunknown : s.unknown (server :: rest) = server :: rest :=
        List.dropWhile_cons_of_neg (by simpa using hnot)
      refine ⟨s.feignclients, fun id => ?_, .inr ⟨server, rest, hunknown, ?_⟩⟩
      · rw [hknown]
        cases s.feignclients.get id with
        | none => rfl
        | some client => rfl
      · rw [State.goThrough, hget]
    | some client =>
      have hhas : s.Has server.instanceId := has_of_get hget
      have hsame : ∀ server', decide ((s.setServer server client).Has server'.instanceId) =
          decide (s.Has (Server.instanceId server')) := fun server' =>
        decide_eq_decide.mpr (has_setServer hget)
      have hknown : (s.setServer server client).known rest = s.known rest := by
        unfold State.known
        rw [funext hsame]
      have hunknown : (s.setServer server client).unknown rest = s.unknown rest := by
        unfold State.unknown
        rw [funext hsame]
      have hcons : s.known (server :: rest) = server :: s.known rest :=
        List.takeWhile_cons_of_pos (decide_eq_true hhas)
      have hdrop : s.unknown (server :: rest) = s.unknown rest :=
        List.dropWhile_cons_of_pos (decide_eq_true hhas)
      obtain ⟨t, ht, hcases⟩ := ih (s.setServer server client)
      rw [hknown] at ht
      rw [hunknown] at hcases
      rw [hcons, hdrop, State.goThrough, hget]
      refine ⟨t, fun id => ?_, hcases⟩
      rw [ht id]
      unfold State.setServer
      dsimp only
      by_cases heq : id = server.instanceId
      · subst heq
        rw [Table.get_set_self, hget, Option.map_some, Option.map_some, renew_cons_self]
      · rw [Table.get_set_of_ne heq]
        cases s.feignclients.get id with
        | none => rfl
        | some client' =>
          rw [Option.map_some, Option.map_some, renew_cons_of_ne (Ne.symm heq)]

theorem lists_iff : s.Lists instances ↔ ∀ id, s.Has id → id ∈ ids instances := by
  unfold State.Lists State.Has
  constructor
  · intro h id hhas
    obtain ⟨client, hget⟩ := Option.ne_none_iff_exists'.mp hhas
    exact h (id, client) (Table.mem_pairs.mpr hget)
  · intro h e hmem
    exact h e.1 (has_of_get (Table.mem_pairs.mp hmem))

/-- Nothing is taken out of a table that has only these instances. -/
theorem removeOthers_of_lists (h : s.Lists instances) :
    (∀ id, (s.removeOthers instances).feignclients.get id = s.feignclients.get id) ∧
      (s.removeOthers instances).sent = s.sent := by
  have hlisted : ∀ id, s.Has id → instances.any (·.instanceId = id) = true := by
    intro id hhas
    obtain ⟨server, hmem, heq⟩ := List.mem_map.mp (lists_iff.mp h id hhas)
    exact List.any_eq_true.mpr ⟨server, hmem, decide_eq_true heq⟩
  constructor
  · intro id
    unfold State.removeOthers
    dsimp only
    rw [Table.get_filter]
    cases hget : s.feignclients.get id with
    | none => rfl
    | some client =>
      rw [Option.filter_some, if_pos (hlisted id (has_of_get hget))]
  · unfold State.removeOthers
    dsimp only
    have hnone : s.feignclients.pairs.filter
        (fun e => !instances.any fun server => decide (server.instanceId = e.1)) = [] := by
      rw [List.filter_eq_nil_iff]
      intro e hmem
      rw [hlisted e.1 (has_of_get (Table.mem_pairs.mp hmem))]
      decide
    rw [hnone, List.flatMap_nil, List.append_nil]

/-! ## What has to hold -/

/-- The instances that a handler still has to write -/
def Handler.todo (h : Handler) : List Server := h.client.server :: h.rest

/-- The handler is that of the newest update. -/
def State.Newest (s : State) (h : Handler) : Prop := h.number + 1 = s.updates.length

instance (s : State) (h : Handler) : Decidable (s.Newest h) :=
  inferInstanceAs (Decidable (h.number + 1 = s.updates.length))

/-- The table after the new client of a handler has been put there -/
def State.enter (s : State) (h : Handler) (client : FeignClient) : State :=
  { s with feignclients := s.feignclients.set h.client.server.instanceId (some client) }

/-- The handler `h` may go on. Its instance has no client yet. When it comes to its end, the table
has
only its instances, and when no other handler is under way, it is that of the newest update. And
beside a handler `g` of a newer update it writes only what is the same there, or is still to be
written. -/
def State.Fits (s : State) (h : Handler) : Prop :=
  ¬ s.Has h.client.server.instanceId ∧
    ((s.enter h h.client).unknown h.rest = [] → (s.enter h h.client).Lists h.instances ∧
      (s.handlers = [h] → s.Newest h)) ∧
    (¬ s.Newest h → ∀ g ∈ s.handlers, s.Newest g →
      ∀ server ∈ h.client.server :: (s.enter h h.client).known h.rest,
        server.instanceId ∈ ids g.instances → server.instanceId ∈ ids g.todo ∨
          entry g.instances server.instanceId = some server)

instance (s : State) (h : Handler) : Decidable (s.Fits h) :=
  inferInstanceAs (Decidable (_ ∧ _ ∧ _))

/-- New webclients are there, what goes on fits, and an update that ends at once takes no client
out. -/
def State.Settled (s : State) : Action → Prop
  | .update instances => s.unknown instances = [] → s.Lists instances
  | .launched number ok => ok = true ∧ ∀ h ∈ s.handlers, h.number = number → s.Fits h
  | .getwebclient => True

instance (s : State) : (a : Action) → Decidable (s.Settled a)
  | .update instances => inferInstanceAs (Decidable (s.unknown instances = [] → s.Lists instances))
  | .launched number ok =>
    inferInstanceAs (Decidable (ok = true ∧ ∀ h ∈ s.handlers, h.number = number → s.Fits h))
  | .getwebclient => inferInstanceAs (Decidable True)

/-- The last update -/
def State.latest (s : State) : List Server := s.updates.getLast?.getD []

/-- A webclient is in use, or has been told to close in a way that it accepts. -/
def State.Accounted (s : State) (webclient : ℕ) : Prop :=
  (∃ id client, s.feignclients.get id = some client ∧ webclient ∈ client.service) ∨
    ∃ command, (webclient, command) ∈ s.sent ∧ webclientAccepts command

/-- The table has the instances of the last update, with their addresses, and no webclient is
lost. -/
structure State.Follows (s : State) : Prop where
  keys : ∀ id, s.feignclients.get id ≠ none ↔ id ∈ ids s.latest
  servers : ∀ id, (s.feignclients.get id).map FeignClient.server = entry s.latest id
  webclients : ∀ webclient < s.started, s.Accounted webclient

/-! ## The handler of the newest update -/

/-- What has been gone through of an update is in the table, as the update says. -/
structure State.Written (s : State) (instances todo : List Server) : Prop where
  there : ∀ id ∈ ids instances, id ∈ ids todo ∨ s.Has id
  right : ∀ id client, s.feignclients.get id = some client → id ∈ ids instances →
    id ∉ ids todo → entry instances id = some client.server

/-- The newest handler is where it should be, and when no handler waits the table is that of the
last update. Each webclient has its place. -/
structure Followed (s : State) : Prop where
  numbers : (s.handlers.map Handler.number).Nodup
  handler : ∀ h ∈ s.handlers, s.updates[h.number]? = some h.instances ∧
    ∃ before, h.instances = before ++ h.todo
  webclients : ∀ webclient < s.started,
    (∃ id client, s.feignclients.get id = some client ∧ webclient ∈ client.service) ∨
      ∃ h ∈ s.handlers, webclient ∈ h.client.service
  newest : ∀ h ∈ s.handlers, s.Newest h → s.Written h.instances h.todo
  idle : s.handlers = [] →
    ∀ id, (s.feignclients.get id).map FeignClient.server = entry s.latest id

theorem has_of_known {rest : List Server} (h : server ∈ s.known rest) :
    s.Has server.instanceId := by
  have hhas : decide (s.Has server.instanceId) = true :=
    List.mem_takeWhile_imp (p := fun server : Server => decide (s.Has server.instanceId)) h
  exact of_decide_eq_true hhas

theorem exists_of_mem_ids (h : id ∈ ids instances) : ∃ server, entry instances id = some server :=
  Option.ne_none_iff_exists'.mp fun hnone => entry_eq_none.mp hnone h

theorem of_entry_eq_some (h : entry instances id = some server) :
    server ∈ instances ∧ server.instanceId = id := by
  have hmem := List.mem_filter.mp (List.mem_of_getLast? h)
  exact ⟨hmem.1, of_decide_eq_true hmem.2⟩

section

variable {t : Table Name FeignClient} {rest todo before : List Server}
  (ht : ∀ id, t.get id = (s.feignclients.get id).map (·.renew (s.known rest) id))
  (hs : ∀ id, s'.feignclients.get id = t.get id)

include ht hs

theorem has_renewed : s'.Has id ↔ s.Has id := by
  unfold State.Has
  rw [hs id, ht id]
  cases s.feignclients.get id with
  | none => exact Iff.rfl
  | some client => exact ⟨fun _ => nofun, fun _ => nofun⟩

/-- The loop of the handler itself -/
theorem State.Written.renew_self (h : s.Written instances rest)
    (hinstances : instances = before ++ rest) : s'.Written instances (s.unknown rest) := by
  have hsplit : instances = before ++ s.known rest ++ s.unknown rest := by
    rw [List.append_assoc, State.known, State.unknown, List.takeWhile_append_dropWhile, hinstances]
  have hrest : ids rest = ids (s.known rest ++ s.unknown rest) := by
    rw [State.known, State.unknown, List.takeWhile_append_dropWhile]
  constructor
  · intro id hmem
    rw [has_renewed ht hs]
    rcases h.there id hmem with hid | hhas
    · rw [hrest, mem_ids_append] at hid
      rcases hid with hknown | hunknown
      · obtain ⟨server, hserver, rfl⟩ := List.mem_map.mp hknown
        exact .inr (has_of_known hserver)
      · exact .inl hunknown
    · exact .inr hhas
  · intro id client' hget hmem hnot
    rw [hs id, ht id, Option.map_eq_some_iff] at hget
    obtain ⟨client, hget, rfl⟩ := hget
    by_cases hknown : id ∈ ids (s.known rest)
    · obtain ⟨server, hserver⟩ := exists_of_mem_ids hknown
      rw [hsplit, entry_append, entry_eq_none.mpr hnot, Option.none_or, entry_append, hserver]
      unfold FeignClient.renew
      rw [hserver]
      rfl
    · have hold : id ∉ ids rest := by
        rw [hrest, mem_ids_append]
        exact fun hid => hid.elim hknown hnot
      rw [h.right id client hget hmem hold]
      unfold FeignClient.renew
      rw [entry_eq_none.mpr hknown]
      rfl

/-- The loop of another handler, which writes nothing that is wrong -/
theorem State.Written.renew_other (h : s.Written instances todo)
    (hfits : ∀ server ∈ s.known rest, server.instanceId ∈ ids instances →
      server.instanceId ∈ ids todo ∨ entry instances server.instanceId = some server) :
    s'.Written instances todo := by
  constructor
  · intro id hmem
    rw [has_renewed ht hs]
    exact h.there id hmem
  · intro id client' hget hmem hnot
    rw [hs id, ht id, Option.map_eq_some_iff] at hget
    obtain ⟨client, hget, rfl⟩ := hget
    by_cases hknown : id ∈ ids (s.known rest)
    · obtain ⟨server, hserver⟩ := exists_of_mem_ids hknown
      obtain ⟨hin, rfl⟩ := of_entry_eq_some hserver
      unfold FeignClient.renew
      rw [hserver]
      exact (hfits server hin hmem).resolve_left hnot
    · unfold FeignClient.renew
      rw [entry_eq_none.mpr hknown]
      exact h.right id client hget hmem hnot

end

/-! ## The steps -/

/-- A handler goes on: what it needs of the state, and of the handlers that wait. -/
structure State.Ready (s : State) (number : ℕ) (instances rest : List Server) : Prop where
  numbers : (s.handlers.map Handler.number ++ [number]).Nodup
  handler : ∀ h ∈ s.handlers, s.updates[h.number]? = some h.instances ∧
    ∃ before, h.instances = before ++ h.todo
  webclients : ∀ webclient < s.started,
    (∃ id client, s.feignclients.get id = some client ∧ webclient ∈ client.service) ∨
      ∃ h ∈ s.handlers, webclient ∈ h.client.service
  newest : ∀ h ∈ s.handlers, s.Newest h → s.Written h.instances h.todo
  update : s.updates[number]? = some instances
  split : ∃ before, instances = before ++ rest
  written : number + 1 = s.updates.length → s.Written instances rest
  fits : ∀ g ∈ s.handlers, s.Newest g → ∀ server ∈ s.known rest,
    server.instanceId ∈ ids g.instances → server.instanceId ∈ ids g.todo ∨
      entry g.instances server.instanceId = some server
  ends : s.unknown rest = [] → s.Lists instances ∧
    (s.handlers = [] → number + 1 = s.updates.length)

/-- When the newest update has been written and no other client is there, the table is right. -/
theorem State.Written.table (h : s.Written instances []) (hlists : s.Lists instances) (id : Name) :
    (s.feignclients.get id).map FeignClient.server = entry instances id := by
  cases hget : s.feignclients.get id with
  | none =>
    symm
    rw [Option.map_none, entry_eq_none]
    intro hmem
    exact (h.there id hmem).elim List.not_mem_nil fun hhas => hhas hget
  | some client =>
    exact (h.right id client hget (lists_iff.mp hlists id (has_of_get hget)) List.not_mem_nil).symm

theorem latest_of_newest {number : ℕ} (hupdate : s.updates[number]? = some instances)
    (hnewest : number + 1 = s.updates.length) : s.latest = instances := by
  unfold State.latest
  rw [List.getLast?_eq_getElem?, ← hnewest, Nat.add_sub_cancel, hupdate]
  rfl

theorem Followed.goThrough {number : ℕ} {rest : List Server}
    (h : s.Ready number instances rest) : Followed (s.goThrough number instances rest) := by
  obtain ⟨before, hbefore⟩ := h.split
  obtain ⟨t, ht, hcases⟩ := goThrough_cases s number instances rest
  have hkept : ∀ webclient id client, s.feignclients.get id = some client →
      webclient ∈ client.service → ∃ client', t.get id = some client' ∧
        webclient ∈ client'.service := by
    intro webclient id client hget hmem
    refine ⟨client.renew (s.known rest) id, ?_, hmem⟩
    rw [ht id, hget, Option.map_some]
  rcases hcases with ⟨hends, heq⟩ | ⟨server, left, hwaits, heq⟩
  · -- the handler is through
    obtain ⟨hlists, hidle⟩ := h.ends hends
    have hlists' : State.Lists { s with feignclients := t } instances :=
      lists_iff.mpr fun id hid => lists_iff.mp hlists id ((has_renewed ht fun _ => rfl).mp hid)
    obtain ⟨hget, hsent⟩ := removeOthers_of_lists hlists'
    rw [heq]
    refine ⟨(List.nodup_append.mp h.numbers).1, h.handler, ?_, ?_, ?_⟩
    · intro webclient hlt
      refine (h.webclients webclient hlt).imp_left ?_
      rintro ⟨id, client, hid, hmem⟩
      obtain ⟨client', hid', hmem'⟩ := hkept webclient id client hid hmem
      exact ⟨id, client', (hget id).trans hid', hmem'⟩
    · intro g hg hnewest
      exact (h.newest g hg hnewest).renew_other ht hget (h.fits g hg hnewest)
    · intro hnone id
      have hnumber := hidle hnone
      have hwritten : State.Written { s with feignclients := t } instances (s.unknown rest) :=
        (h.written hnumber).renew_self ht (fun _ => rfl) hbefore
      rw [hends] at hwritten
      rw [hget id, hwritten.table hlists' id]
      exact congrArg (fun l => entry l id) (latest_of_newest h.update hnumber).symm
  · -- it waits for a webclient
    rw [heq]
    have hsplit : instances = before ++ s.known rest ++ server :: left := by
      rw [List.append_assoc, ← hwaits, State.known, State.unknown, List.takeWhile_append_dropWhile,
        hbefore]
    refine ⟨?_, ?_, ?_, ?_, ?_⟩
    · show ((s.handlers ++ [_]).map Handler.number).Nodup
      rw [List.map_append]
      exact h.numbers
    · intro g hg
      rcases List.mem_append.mp hg with hold | hnew
      · exact h.handler g hold
      · rw [List.mem_singleton.mp hnew]
        exact ⟨h.update, _, hsplit⟩
    · intro webclient hlt
      rcases h.webclients webclient hlt with ⟨id, client, hid, hmem⟩ | ⟨g, hg, hmem⟩
      · obtain ⟨client', hid', hmem'⟩ := hkept webclient id client hid hmem
        exact .inl ⟨id, client', hid', hmem'⟩
      · exact .inr ⟨g, List.mem_append_left _ hg, hmem⟩
    · intro g hg hnewest
      rcases List.mem_append.mp hg with hold | hnew
      · exact (h.newest g hold hnewest).renew_other ht (fun _ => rfl) (h.fits g hold hnewest)
      · rw [List.mem_singleton.mp hnew] at hnewest ⊢
        have hwritten : State.Written { s with
            feignclients := t
            handlers := s.handlers ++ [⟨number, instances, ⟨server, []⟩, left⟩] } instances
            (s.unknown rest) := (h.written hnewest).renew_self ht (fun _ => rfl) hbefore
        rw [hwaits] at hwritten
        exact hwritten
    · intro hnone
      exact absurd hnone (List.append_ne_nil_of_right_ne_nil _ nofun)

/-- A new update -/
theorem Followed.update (h : Followed s)
    (hsettled : s.unknown instances = [] → s.Lists instances) : Followed (s.update instances) := by
  unfold State.update
  have hlt : ∀ g ∈ s.handlers, g.number < s.updates.length := fun g hg =>
    (List.getElem?_eq_some_iff.mp (h.handler g hg).1).1
  have hlen : (s.updates ++ [instances]).length = s.updates.length + 1 := List.length_append
  have hold : ∀ g ∈ s.handlers,
      ¬ State.Newest { s with updates := s.updates ++ [instances] } g := by
    intro g hg hnewest
    have := hlt g hg
    unfold State.Newest at hnewest
    rw [show _ = _ from hlen] at hnewest
    omega
  apply Followed.goThrough
  refine ⟨?_, ?_, h.webclients, ?_, ?_, ⟨[], rfl⟩, ?_, ?_, ?_⟩
  · rw [List.nodup_append_comm, List.singleton_append, List.nodup_cons]
    refine ⟨fun hmem => ?_, h.numbers⟩
    obtain ⟨g, hg, heq⟩ := List.mem_map.mp hmem
    have := hlt g hg
    omega
  · intro g hg
    exact ⟨getElem?_concat_of_eq_some (h.handler g hg).1, (h.handler g hg).2⟩
  · intro g hg hnewest
    exact absurd hnewest (hold g hg)
  · exact List.getElem?_concat_length
  · intro hnumber
    exact ⟨fun id hid => .inl hid, fun id client hget hmem hnot => absurd hmem hnot⟩
  · intro g hg hnewest
    exact absurd hnewest (hold g hg)
  · intro hends
    exact ⟨hsettled hends, fun hnone => hlen.symm⟩

section

variable {h : Handler} {w : FeignClient}
  (hget : ∀ id, s'.feignclients.get id =
    if id = h.client.server.instanceId then some w else s.feignclients.get id)

include hget

theorem has_entered : s'.Has id ↔ id = h.client.server.instanceId ∨ s.Has id := by
  unfold State.Has
  rw [hget id]
  by_cases heq : id = h.client.server.instanceId
  · rw [if_pos heq]
    exact ⟨fun _ => .inl heq, fun _ => nofun⟩
  · rw [if_neg heq]
    exact ⟨.inr, fun h => h.resolve_left heq⟩

/-- The client that the handler of the newest update puts there is the next one that it has to
write. -/
theorem State.Written.enter_self (hw : s.Written h.instances h.todo) {before : List Server}
    (hsplit : h.instances = before ++ h.todo) (hserver : w.server = h.client.server) :
    s'.Written h.instances h.rest := by
  have hsplit' : h.instances = before ++ [h.client.server] ++ h.rest := by
    rw [hsplit, Handler.todo, List.append_assoc, List.singleton_append]
  have htodo : ∀ id, id ∈ ids h.todo ↔ id = h.client.server.instanceId ∨ id ∈ ids h.rest :=
    fun id => List.mem_cons
  constructor
  · intro id hmem
    rw [has_entered hget]
    rcases hw.there id hmem with htd | hhas
    · exact ((htodo id).mp htd).elim (fun heq => .inr (.inl heq)) .inl
    · exact .inr (.inr hhas)
  · intro id client hid hmem hnot
    rw [hget id] at hid
    by_cases heq : id = h.client.server.instanceId
    · rw [if_pos heq] at hid
      rw [← Option.some.inj hid, hserver, hsplit', entry_append, entry_eq_none.mpr hnot,
        Option.none_or, entry_append, entry_singleton, if_pos heq.symm, Option.some_or]
    · rw [if_neg heq] at hid
      exact hw.right id client hid hmem fun htd => ((htodo id).mp htd).elim heq hnot

/-- To the newest update it is no harm when another handler puts a client there that fits. -/
theorem State.Written.enter_other {todo : List Server} (hw : s.Written instances todo)
    (hserver : w.server = h.client.server)
    (hfits : h.client.server.instanceId ∈ ids instances →
      h.client.server.instanceId ∈ ids todo ∨
        entry instances h.client.server.instanceId = some h.client.server) :
    s'.Written instances todo := by
  constructor
  · intro id hmem
    rw [has_entered hget]
    exact (hw.there id hmem).imp_right .inr
  · intro id client hid hmem hnot
    rw [hget id] at hid
    by_cases heq : id = h.client.server.instanceId
    · rw [if_pos heq] at hid
      rw [← Option.some.inj hid, hserver, heq]
      exact (hfits (heq ▸ hmem)).resolve_left (heq ▸ hnot)
    · rw [if_neg heq] at hid
      exact hw.right id client hid hmem hnot

end

theorem known_congr {rest : List Server} (hhas : ∀ id, s.Has id ↔ s'.Has id) :
    s.known rest = s'.known rest ∧ s.unknown rest = s'.unknown rest := by
  have hsame : ∀ server : Server, decide (s.Has server.instanceId) =
      decide (s'.Has server.instanceId) := fun server => decide_eq_decide.mpr (hhas _)
  unfold State.known State.unknown
  rw [funext hsame]
  exact ⟨rfl, rfl⟩

/-- The handler of an update goes on with its new webclient. -/
theorem Followed.launched (hf : Followed s) {h : Handler} (hmem : h ∈ s.handlers)
    (hfits : s.Fits h) : Followed (s.launched h) := by
  have hmax : ¬ (h.client.service ++ [s.started]).length < maxClient := by
    rw [List.length_append, List.length_singleton, maxClient]
    omega
  obtain ⟨hnew, hends, hothers⟩ := hfits
  obtain ⟨hupdate, before, hsplit⟩ := hf.handler h hmem
  have hnodup : s.handlers.Nodup := hf.numbers.of_map _
  have hnumber : ∀ g ∈ s.handlers.erase h, g.number ≠ h.number := by
    intro g hg heq
    have := List.inj_on_of_nodup_map hf.numbers (List.mem_of_mem_erase hg) hmem heq
    exact hnodup.not_mem_erase (this ▸ hg)
  have henter : ∀ id, (s.enter h h.client).feignclients.get id =
      if id = h.client.server.instanceId then some h.client else s.feignclients.get id :=
    fun id => Table.get_set
  unfold State.launched
  dsimp only
  rw [if_neg hmax]
  -- the state in which the loop goes on
  set w : FeignClient := { h.client with service := h.client.service ++ [s.started] } with hw
  set t : State := { s with
    handlers := s.handlers.erase h
    started := s.started + 1
    feignclients := s.feignclients.set h.client.server.instanceId (some w) } with ht
  have hget : ∀ id, t.feignclients.get id =
      if id = h.client.server.instanceId then some w else s.feignclients.get id :=
    fun id => Table.get_set
  have hhas : ∀ id, (s.enter h h.client).Has id ↔ t.Has id := fun id => by
    rw [has_entered henter, has_entered hget]
  have hsame := @known_congr _ _ h.rest hhas
  obtain ⟨hknown, hunknown⟩ := hsame
  rw [hknown] at hothers
  rw [hunknown] at hends
  have hnewest : ∀ g ∈ s.handlers.erase h, s.Newest g → ¬ s.Newest h := by
    intro g hg hg' hh
    unfold State.Newest at hg' hh
    exact hnumber g hg (by omega)
  apply Followed.goThrough
  refine ⟨?_, ?_, ?_, ?_, hupdate, ⟨before ++ [h.client.server], ?_⟩, ?_, ?_, ?_⟩
  · rw [List.nodup_append_comm, List.singleton_append, List.nodup_cons]
    refine ⟨fun hin => ?_, hf.numbers.sublist (List.erase_sublist.map _)⟩
    obtain ⟨g, hg, heq⟩ := List.mem_map.mp hin
    exact hnumber g hg heq
  · intro g hg
    exact hf.handler g (List.mem_of_mem_erase hg)
  · intro webclient hlt
    rcases Nat.lt_succ_iff_lt_or_eq.mp hlt with hold | rfl
    · rcases hf.webclients webclient hold with ⟨id, client, hid, hin⟩ | ⟨g, hg, hin⟩
      · have hne : id ≠ h.client.server.instanceId := fun heq => hnew (heq ▸ has_of_get hid)
        exact .inl ⟨id, client, by rw [hget id, if_neg hne, hid], hin⟩
      · by_cases heq : g = h
        · subst heq
          exact .inl ⟨_, w, by rw [hget, if_pos rfl], List.mem_append_left _ hin⟩
        · exact .inr ⟨g, (List.mem_erase_of_ne heq).mpr hg, hin⟩
    · exact .inl ⟨_, w, by rw [hget, if_pos rfl],
        List.mem_append_right _ (List.mem_singleton_self _)⟩
  · intro g hg hg'
    have hmem' := List.mem_of_mem_erase hg
    exact (hf.newest g hmem' hg').enter_other hget rfl
      (hothers (hnewest g hg hg') g hmem' hg' _ List.mem_cons_self)
  · rw [hsplit, Handler.todo, List.append_assoc, List.singleton_append]
  · intro hh
    exact (hf.newest h hmem hh).enter_self hget hsplit rfl
  · intro g hg hg' server hserver
    exact hothers (hnewest g hg hg') g (List.mem_of_mem_erase hg) hg' server
      (List.mem_cons_of_mem _ hserver)
  · intro hnone
    obtain ⟨hlists, hlast⟩ := hends hnone
    refine ⟨lists_iff.mpr fun id hid => lists_iff.mp hlists id ((hhas id).mpr hid),
      fun herase => ?_⟩
    refine hlast ?_
    -- no other handler waits
    have := List.length_erase_of_mem hmem
    rw [show s.handlers.erase h = [] from herase, List.length_nil] at this
    have hpos := List.length_pos_of_mem hmem
    obtain ⟨g, hg⟩ := List.length_eq_one_iff.mp (show s.handlers.length = 1 by omega)
    rw [hg] at hmem ⊢
    rw [List.mem_singleton.mp hmem]

theorem followed_init : Followed State.init :=
  ⟨List.nodup_nil, nofun, nofun, nofun, fun _ _ => rfl⟩

theorem Followed.step {a : Action} (h : Followed s) (hsettled : s.Settled a)
    (hstep : s.step a = some s') : Followed s' := by
  cases a with
  | update instances => exact Option.some.inj hstep ▸ h.update hsettled
  | launched number ok =>
    obtain ⟨hok, hfits⟩ := hsettled
    subst hok
    rw [State.step] at hstep
    split at hstep
    · rename_i g hfind
      have hmem := List.mem_of_find?_eq_some hfind
      have hnumber : g.number = number := of_decide_eq_true (List.find?_some hfind :)
      exact Option.some.inj hstep ▸ h.launched hmem (hfits g hmem hnumber)
    · cases hstep
  | getwebclient =>
    rw [← Option.some.inj hstep]
    unfold State.getwebclient
    split
    · exact h
    · refine { h with newest := fun g hg hnewest => ?_ }
      have hwritten := h.newest g hg hnewest
      exact ⟨hwritten.there, hwritten.right⟩

/-- **The table follows the registry.** When the handlers of the updates are through, it has the
instances of the last update, and every webclient that has been started is in use. -/
theorem updates_followed {acts : List Action}
    (hsettled : Guarded State.step State.Settled .init acts)
    (hrun : run State.step .init acts = some s) (hdone : s.handlers = []) : s.Follows := by
  have h : Followed s := run_invariant (fun s a s' h ha hstep => h.step ha hstep) followed_init
    hsettled hrun
  have hservers := h.idle hdone
  refine ⟨fun id => ?_, hservers, fun webclient hlt => .inl ?_⟩
  · rw [← not_iff_not, not_not, ← entry_eq_none, ← hservers id, Option.map_eq_none_iff]
  · rcases h.webclients webclient hlt with hused | ⟨g, hg, -⟩
    · exact hused
    · exact absurd (hdone ▸ hg) List.not_mem_nil

/-- Two instances -/
def first : Server := ⟨['a'], ['x'], 80⟩

def second : Server := ⟨['b'], ['y'], 80⟩

/-- The second update comes while the first one waits, and waits for another instance itself. -/
def overlap : List Action :=
  [.update [first], .update [second, first], .launched 0 true, .getwebclient, .launched 1 true]

theorem updates_followed_overlap : ∃ s, run State.step .init overlap = some s ∧
    s.started = 2 ∧ s.Follows := by
  obtain ⟨s, hrun, hdone, hstarted⟩ : ∃ s, run State.step .init overlap = some s ∧
      s.handlers = [] ∧ s.started = 2 := ⟨_, rfl, rfl, rfl⟩
  have hsettled : Guarded State.step State.Settled .init overlap := by decide
  exact ⟨s, hrun, hstarted, updates_followed hsettled hrun hdone⟩

/-- An instance goes, and its webclient does not accept what it is told. -/
def removal : List Action := [.update [first], .launched 0 true, .update []]

/-- The handler of the older update is through last. -/
def late : List Action := [.update [first], .update [], .launched 0 true]

theorem updates_lost :
    (∃ s, run State.step .init removal = some s ∧ s.handlers = [] ∧ ¬ s.Follows) ∧
      ∃ s, run State.step .init late = some s ∧ s.handlers = [] ∧ ¬ s.Follows := by
  constructor
  · obtain ⟨s, hrun, hdone, hstarted, hpairs, hsent⟩ : ∃ s,
        run State.step .init removal = some s ∧ s.handlers = [] ∧ s.started = 1 ∧
          s.feignclients.pairs = [] ∧ s.sent = [(0, "close")] := ⟨_, rfl, rfl, rfl, rfl, rfl⟩
    refine ⟨s, hrun, hdone, fun h => ?_⟩
    rcases h.webclients 0 (by omega) with ⟨id, client, hget, -⟩ | ⟨command, hmem, haccepts⟩
    · have hmem := Table.mem_pairs.mpr hget
      rw [hpairs] at hmem
      cases hmem
    · rw [hsent] at hmem
      cases List.mem_singleton.mp hmem
      exact absurd haccepts (by unfold webclientAccepts; decide)
  · obtain ⟨s, hrun, hdone, hlatest, hget⟩ : ∃ s, run State.step .init late = some s ∧
        s.handlers = [] ∧ s.latest = [] ∧
          s.feignclients.get ['a'] = some ⟨first, [0]⟩ := ⟨_, rfl, rfl, rfl, rfl⟩
    refine ⟨s, hrun, hdone, fun h => ?_⟩
    have hkeys := (h.keys ['a']).mp (by rw [hget]; exact nofun)
    rw [hlatest] at hkeys
    cases hkeys

end SkynetEureka.Eureka.Ribbon
