import SkynetEureka.Multicast.Daemon

/-!
# What the daemons keep

`Multicastd.Ok` and `Package.Ok` are about one daemon and one package. `copies` are the copies of
publications at nodes, on their way or in a package there: a copy has been ordered by the PUB that
has made the publication, or by the loop of the owner, which has visited the node then.
-/

namespace SkynetEureka.Multicast

open Lib Function

/-- A daemon counts its subscribers. It has tables of other nodes for its own channels. -/
structure Multicastd.Ok (h : ℕ) (d : Multicastd) : Prop where
  counted : ∀ c, d.channelN c = (d.channel c).map List.length
  nodup : ∀ c, ∀ group ∈ d.channel c, group.Nodup
  used_nodup : d.used.Nodup
  used : ∀ c ∈ d.used, d.channel c ≠ none ∧ owner c = h
  id : h < 256 → owner d.channelId = h
  remote : ∀ c, ∀ t ∈ d.channelRemote c, owner c = h
  tables : ∀ table ∈ d.tables, h ∉ table

/-- A package that has been published: it has been bound with the number of those that it has been
sent to, or freed when there are none, and it is freed when all of them have closed it. -/
structure Package.Settled (pack : Package) : Prop where
  nodup : pack.receivers.Nodup
  bound : pack.receivers ≠ [] → pack.bound = some pack.receivers.length
  none : pack.receivers = [] → pack.opened = []
  reference : pack.reference = pack.opened.length
  freed : pack.freed = if pack.opened = [] then 1 else 0

/-- A package that has not been bound -/
structure Package.Unbound (pack : Package) : Prop where
  reference : pack.reference = 0
  receivers : pack.receivers = []
  opened : pack.opened = []
  freed : pack.freed = 0

structure Package.Ok (published : List ℕ) (pack : Package) : Prop where
  publication : published[pack.publication]? = some (owner pack.channel)
  quiet : pack.inserted = false
  visited : pack.visited.Nodup
  not_self : pack.node ∉ pack.visited
  owned : pack.remote ≠ Option.none ∨ pack.visited ≠ [] → owner pack.channel = pack.node
  unbound : pack.remote ≠ Option.none → pack.Unbound
  settled : pack.remote = Option.none → pack.Settled

/-- The publication that a message carries -/
def Message.publication : Message → Option ℕ
  | .multicast _ _ publication => some publication
  | _ => none

/-- A message that a daemon sends -/
def Message.Ok (published : List ℕ) (dest : ℕ) : Message → Prop
  | .delr c => owner c ≠ dest
  | .multicast c _ publication => published[publication]? = some (owner c)
  | _ => True

def Post.copy (post : Post) : Option (ℕ × ℕ) :=
  post.message.publication.map fun publication => (publication, post.dest)

def Package.copy (pack : Package) : ℕ × ℕ := (pack.publication, pack.node)

def Package.orders (pack : Package) : List (ℕ × ℕ) :=
  pack.visited.map fun n => (pack.publication, n)

/-- The packages that have been sent to services: the publication, the node and the service. -/
def Package.sends (pack : Package) : List (ℕ × ℕ × ℕ) :=
  pack.receivers.map fun k => (pack.publication, pack.node, k)

namespace State

def copies (s : State) : List (ℕ × ℕ) := s.posts.filterMap Post.copy ++ s.packages.map Package.copy

def ordered (s : State) : List (ℕ × ℕ) := s.packages.flatMap Package.orders

def sends (s : State) : List (ℕ × ℕ × ℕ) := s.packages.flatMap Package.sends

end State

/-- PUB orders the copy of the owner. -/
def due (published : List ℕ) (x : ℕ × ℕ) : ℕ := if published[x.1]? = some x.2 then 1 else 0

structure Inv (s : State) : Prop where
  node : ∀ h, (s.node h).Ok h
  package : ∀ pack ∈ s.packages, pack.Ok s.published
  post : ∀ post ∈ s.posts, post.message.Ok s.published post.dest
  copies : ∀ x, s.copies.count x ≤ due s.published x + s.ordered.count x

section

variable {s s' : State} {h n k : ℕ} {c : ℤ} {d : Multicastd} {pack : Package}

/-! ## Channels -/

theorem owner_session : owner (session c) = owner c := by
  unfold owner session
  omega

theorem owner_nextid : owner (nextid c) = owner c := by
  unfold owner nextid
  omega

/-! ## One daemon -/

theorem Multicastd.ok_init : (Multicastd.init h).Ok h := by
  refine ⟨fun _ => rfl, ?_, .nil, ?_, fun hlt => ?_, ?_, ?_⟩
  · intro c group hgroup
    cases hgroup
  · intro c hc
    cases hc
  · show ((h : ℤ) % 256).toNat = h
    omega
  · intro c t ht
    cases ht
  · intro table htable
    cases htable

theorem Multicastd.Ok.running (hd : d.Ok h) (running : Option ℕ) :
    Multicastd.Ok h { d with running := running } :=
  ⟨hd.counted, hd.nodup, hd.used_nodup, hd.used, hd.id, hd.remote, hd.tables⟩

theorem freeId_spec {ids : ℕ} {id id' : ℤ} (hfree : d.freeId ids id = some id') :
    d.channel id' = none ∧ owner id' = owner id := by
  induction ids generalizing id with
  | zero => cases hfree
  | succ ids ih =>
    unfold Multicastd.freeId at hfree
    by_cases hused : (d.channel id).isSome
    · rw [if_pos hused] at hfree
      obtain ⟨hnone, howner⟩ := ih hfree
      exact ⟨hnone, howner.trans owner_nextid⟩
    · rw [if_neg hused] at hfree
      cases hfree
      exact ⟨by simpa using hused, rfl⟩

theorem Multicastd.Ok.write (hd : d.Ok h) {group : List ℕ} (hnodup : group.Nodup) :
    Multicastd.Ok h
      { d with
        channel := update d.channel c (some group)
        channelN := update d.channelN c (some group.length) } := by
  refine ⟨?_, ?_, hd.used_nodup, ?_, hd.id, hd.remote, hd.tables⟩
  · intro c'
    dsimp only
    by_cases heq : c' = c
    · subst heq
      rw [update_self, update_self]
      rfl
    · rw [update_of_ne heq, update_of_ne heq]
      exact hd.counted c'
  · intro c' group' hgroup
    dsimp only at hgroup
    by_cases heq : c' = c
    · subst heq
      rw [update_self] at hgroup
      cases hgroup
      exact hnodup
    · rw [update_of_ne heq] at hgroup
      exact hd.nodup c' group' hgroup
  · intro c' hc'
    refine ⟨?_, (hd.used c' hc').2⟩
    dsimp only
    by_cases heq : c' = c
    · subst heq
      rw [update_self]
      exact Option.some_ne_none _
    · rw [update_of_ne heq]
      exact (hd.used c' hc').1

theorem Multicastd.Ok.delr (hd : d.Ok h) (hc : c ∉ d.used) : (d.delr c).Ok h := by
  refine ⟨?_, ?_, hd.used_nodup, ?_, hd.id, hd.remote, hd.tables⟩
  · intro c'
    unfold Multicastd.delr
    dsimp only
    by_cases heq : c' = c
    · subst heq
      rw [update_self, update_self]
      rfl
    · rw [update_of_ne heq, update_of_ne heq]
      exact hd.counted c'
  · intro c' group hgroup
    unfold Multicastd.delr at hgroup
    dsimp only at hgroup
    by_cases heq : c' = c
    · subst heq
      rw [update_self] at hgroup
      cases hgroup
    · rw [update_of_ne heq] at hgroup
      exact hd.nodup c' group hgroup
  · intro c' hc'
    refine ⟨?_, (hd.used c' hc').2⟩
    unfold Multicastd.delr
    dsimp only
    rw [update_of_ne fun heq : c' = c => hc (heq ▸ hc')]
    exact (hd.used c' hc').1

/-- Only the owner of a channel has it in use. -/
theorem Multicastd.Ok.not_used (hd : d.Ok h) (hc : owner c ≠ h) : c ∉ d.used :=
  fun hused => hc (hd.used c hused).2

theorem Multicastd.Ok.forget (hd : d.Ok h) :
    Multicastd.Ok h { d with used := d.used.filter (· ≠ c) } :=
  ⟨hd.counted, hd.nodup, hd.used_nodup.filter _,
    fun c' hc' => hd.used c' (List.mem_of_mem_filter hc'), hd.id, hd.remote, hd.tables⟩

theorem Multicastd.Ok.noRemote (hd : d.Ok h) :
    Multicastd.Ok h { d with channelRemote := update d.channelRemote c none } := by
  refine ⟨hd.counted, hd.nodup, hd.used_nodup, hd.used, hd.id, ?_, hd.tables⟩
  intro c' t ht
  dsimp only at ht
  by_cases heq : c' = c
  · subst heq
    rw [update_self] at ht
    cases ht
  · rw [update_of_ne heq] at ht
    exact hd.remote c' t ht

theorem Multicastd.Ok.new {d' : Multicastd} (hd : d.Ok h) (hlt : h < 256) (hnew : d.new = some d') :
    d'.Ok h := by
  unfold Multicastd.new at hnew
  obtain ⟨id, hfree, hsome⟩ := Option.bind_eq_some_iff.mp hnew
  obtain rfl := Option.some.inj hsome
  obtain ⟨hnone, howner⟩ := freeId_spec hfree
  have hid : owner id = h := howner.trans (hd.id hlt)
  have hfresh : id ∉ d.used := fun hused => (hd.used id hused).1 hnone
  have hw := hd.write (c := id) .nil
  refine ⟨hw.counted, hw.nodup, ?_, ?_, fun _ => owner_nextid.trans hid, hw.remote, hw.tables⟩
  · refine hd.used_nodup.append (List.nodup_singleton id) ?_
    exact List.disjoint_singleton.mpr hfresh
  · intro c hc
    rcases List.mem_append.mp hc with hold | hnew
    · exact hw.used c hold
    · rw [List.mem_singleton.mp hnew]
      refine ⟨?_, hid⟩
      dsimp only
      rw [update_self]
      exact Option.some_ne_none _

theorem Multicastd.Ok.subscribe (hd : d.Ok h) (source : ℕ) : (d.subscribe source c).Ok h := by
  unfold Multicastd.subscribe
  cases hgroup : d.channel c with
  | none => exact hd
  | some group =>
    have hn : d.channelN c = some group.length := by rw [hd.counted, hgroup]; rfl
    rw [hn]
    dsimp only
    by_cases hmem : source ∈ group
    · rw [if_pos hmem]
      exact hd
    · rw [if_neg hmem]
      have hnodup : (group ++ [source]).Nodup :=
        (hd.nodup c group hgroup).append (List.nodup_singleton _)
          (List.disjoint_singleton.mpr hmem)
      have hw := hd.write (c := c) hnodup
      rw [List.length_append] at hw
      exact hw

theorem Multicastd.Ok.subscribed (hd : d.Ok h) (source : ℕ) (missing : Bool) :
    (d.subscribed source c missing).Ok h := by
  unfold Multicastd.subscribed
  cases missing with
  | true => exact hd
  | false =>
    rw [if_neg Bool.false_ne_true]
    refine Multicastd.Ok.subscribe ?_ source
    cases hgroup : d.channel c with
    | some group => exact hd
    | none => exact hd.write .nil

/-- The last subscriber of a channel of another node, or one of several, unsubscribes. -/
theorem Multicastd.Ok.unsubscribe (hd : d.Ok h) {group : List ℕ} {source : ℕ}
    (hgroup : d.channel c = some group) (hmem : source ∈ group) :
    Multicastd.Ok h
      { d with
        channel := update d.channel c (some (group.erase source))
        channelN := update d.channelN c (some (group.length - 1)) } := by
  have hw := hd.write (c := c) ((hd.nodup c group hgroup).erase source)
  rw [List.length_erase_of_mem hmem] at hw
  exact hw

theorem Multicastd.Ok.modify (hd : d.Ok h) (t : ℕ) {f : List ℕ → List ℕ}
    (hf : ∀ table, h ∉ table → h ∉ f table) :
    Multicastd.Ok h { d with tables := d.tables.modify t f } := by
  refine ⟨hd.counted, hd.nodup, hd.used_nodup, hd.used, hd.id, hd.remote, ?_⟩
  intro table htable
  obtain ⟨i, hi⟩ := List.getElem?_of_mem htable
  dsimp only at hi
  rw [List.getElem?_modify] at hi
  obtain ⟨old, hold, rfl⟩ := Option.map_eq_some_iff.mp hi
  have hmem := hd.tables old (List.mem_of_getElem? hold)
  split
  · exact hf old hmem
  · exact hmem

theorem Multicastd.Ok.addRemote (hd : d.Ok h) (hne : n ≠ h) (hc : owner c = h) :
    (d.addRemote n c).Ok h := by
  unfold Multicastd.addRemote
  cases hremote : d.channelRemote c with
  | none =>
    refine ⟨hd.counted, hd.nodup, hd.used_nodup, hd.used, hd.id, ?_, ?_⟩
    · intro c' t ht
      dsimp only at ht
      by_cases heq : c' = c
      · exact heq ▸ hc
      · rw [update_of_ne heq] at ht
        exact hd.remote c' t ht
    · intro table htable
      rcases List.mem_append.mp htable with hold | hnew
      · exact hd.tables table hold
      · rw [List.mem_singleton.mp hnew, List.mem_singleton]
        exact hne.symm
  | some t =>
    refine hd.modify t fun table htable => ?_
    split
    · exact htable
    · rw [List.mem_append, List.mem_singleton]
      exact fun h => h.elim htable hne.symm

theorem Multicastd.Ok.usubr (hd : d.Ok h) : (d.usubr n c).Ok h := by
  unfold Multicastd.usubr
  cases d.channelRemote c with
  | none => exact hd
  | some t => exact hd.modify t fun table htable hmem => htable (List.mem_of_mem_filter hmem)

theorem Multicastd.Ok.not_mem_table (hd : d.Ok h) (t : ℕ) : h ∉ d.table t := by
  unfold Multicastd.table
  rw [List.getD_eq_getElem?_getD]
  cases htable : d.tables[t]? with
  | none => exact List.not_mem_nil
  | some table => exact hd.tables table (List.mem_of_getElem? htable)

/-! ## One package -/

/-- What binding and sending write -/
def Package.bind (pack : Package) (reference : ℤ) (bound : ℕ) (receivers : List ℕ) (freed : ℕ) :
    Package :=
  { pack with
    reference := reference, bound := some bound, receivers := receivers, opened := receivers
    freed := freed }

theorem publishLocal_spec (hd : d.Ok h) (hpack : pack.Unbound) :
    ∃ reference bound receivers freed,
      d.publishLocal pack = some (pack.bind reference bound receivers freed) ∧
        (pack.bind reference bound receivers freed).Settled := by
  obtain ⟨hreference, hreceivers, hopened, hfreed⟩ := hpack
  have hbind : ∀ ref, pack.bindrefer ref = some { pack with reference := ref, bound := some ref } :=
    fun ref => if_neg (not_not.mpr hreference)
  have hdead : (pack.bindrefer 1).bind (fun pack => some pack.closelocal) =
      some (pack.bind 0 1 [] 1) := by
    rw [hbind, Option.bind_some]
    unfold Package.closelocal Package.bind
    simp [hfreed, hreceivers, hopened]
  have hsettled : (pack.bind 0 1 [] 1).Settled :=
    ⟨.nil, fun hne => (hne rfl).elim, fun _ => rfl, rfl, rfl⟩
  unfold Multicastd.publishLocal
  cases hgroup : d.channel pack.channel with
  | none => exact ⟨0, 1, [], 1, hdead, hsettled⟩
  | some group =>
    cases group with
    | nil => exact ⟨0, 1, [], 1, hdead, hsettled⟩
    | cons k group =>
      have hn : d.channelN pack.channel = some (k :: group).length := by
        rw [hd.counted, hgroup]
        rfl
      refine ⟨(k :: group).length, (k :: group).length, k :: group, 0, ?_, ?_⟩
      · dsimp only
        rw [hn, Option.bind_eq_bind, Option.bind_some, hbind, Option.bind_eq_bind,
          Option.bind_some, ← hfreed]
        rfl
      · exact ⟨hd.nodup _ _ hgroup, fun _ => rfl, fun hnil => hnil, rfl, rfl⟩

/-- A subscriber closes the package. -/
theorem Package.Settled.close (hpack : pack.Settled) {source : ℕ} (hmem : source ∈ pack.opened) :
    Package.Settled { pack.closelocal with opened := pack.opened.erase source } := by
  have hlength := List.length_erase_of_mem hmem
  have hpos := List.length_pos_of_mem hmem
  have hreference := hpack.reference
  have hfreed := hpack.freed
  rw [if_neg (List.ne_nil_of_mem hmem)] at hfreed
  refine ⟨hpack.nodup, hpack.bound, ?_, ?_, ?_⟩
  · intro hnil
    rw [hpack.none hnil] at hmem
    cases hmem
  · show pack.reference - 1 = _
    dsimp only
    omega
  · show (if pack.reference - 1 ≤ 0 then pack.freed + 1 else pack.freed) = _
    dsimp only
    by_cases hnil : pack.opened.erase source = []
    · rw [if_pos hnil, hfreed]
      rw [hnil, List.length_nil] at hlength
      exact if_pos (by omega)
    · have hlt := List.length_pos_of_ne_nil hnil
      rw [if_neg hnil, if_neg (by omega), hfreed]

end

end SkynetEureka.Multicast
