import SkynetEureka.Lib.Lists
import SkynetEureka.Multicast.Invariants

/-!
# Publications

Each step keeps `Inv` as long as no node is put into a table that a loop goes through: what is
ordered is new each time, so that there is never more than one copy of a publication for a node.
-/

namespace SkynetEureka.Multicast

open Lib Function

/-- The channel of a SUBR -/
def Message.joined : Message → Option ℤ
  | .subr c _ => some c
  | _ => none

/-- No node is put into the table of a channel while a loop of the daemon goes through it. -/
def Quiet (s : State) : Action → Prop
  | .deliver i => ∀ post ∈ s.posts[i]?, ∀ c ∈ post.message.joined,
      ∀ t ∈ (s.node post.dest).channelRemote c, ∀ pack ∈ s.packages,
        pack.node = post.dest → pack.remote = some t → post.src ∈ (s.node post.dest).table t
  | _ => True

instance (s : State) : (a : Action) → Decidable (Quiet s a)
  | .deliver i => inferInstanceAs (Decidable (∀ post ∈ s.posts[i]?, ∀ c ∈ post.message.joined,
      ∀ t ∈ (s.node post.dest).channelRemote c, ∀ pack ∈ s.packages,
        pack.node = post.dest → pack.remote = some t → post.src ∈ (s.node post.dest).table t))
  | .new _ | .del .. | .sub .. | .usub .. | .pub .. | .address _ | .next .. | .close .. =>
    inferInstanceAs (Decidable True)

section

variable {s s' : State} {h n k i src dest source p : ℕ} {c : ℤ} {d : Multicastd} {pack : Package}
  {post : Post} {message : Message} {published : List ℕ} {o : ℕ}

/-! ## More publications -/

theorem getElem?_published (hp : published[p]? = some h) : (published ++ [o])[p]? = some h :=
  getElem?_concat_of_eq_some hp

theorem Package.Ok.publish (hpack : pack.Ok published) : pack.Ok (published ++ [o]) :=
  { hpack with publication := getElem?_published hpack.publication }

theorem Message.Ok.publish (hmessage : message.Ok published dest) :
    message.Ok (published ++ [o]) dest := by
  cases message with
  | multicast => exact getElem?_published hmessage
  | delr => exact hmessage
  | _ => trivial

theorem due_le (x : ℕ × ℕ) : due published x ≤ due (published ++ [o]) x := by
  unfold due
  by_cases hx : published[x.1]? = some x.2
  · rw [if_pos hx, if_pos (getElem?_published hx)]
  · rw [if_neg hx]
    exact Nat.zero_le _

/-! ## Copies -/

theorem mem_orders {x : ℕ × ℕ} (hx : x ∈ pack.orders) :
    pack.publication = x.1 ∧ x.2 ∈ pack.visited := by
  obtain ⟨n, hn, rfl⟩ := List.mem_map.mp hx
  exact ⟨rfl, hn⟩

theorem count_orders_le (hpack : pack.Ok published) (x : ℕ × ℕ) : pack.orders.count x ≤ 1 := by
  refine List.nodup_iff_count_le_one.mp ?_ x
  exact hpack.visited.map fun a b hab => (Prod.mk.inj hab).2

/-- The owner does not order a copy for itself. -/
theorem Inv.not_ordered (hs : Inv s) (hp : s.published[p]? = some h) :
    s.ordered.count (p, h) = 0 := by
  refine List.count_eq_zero.mpr fun hmem => ?_
  obtain ⟨pack, hpack, hx⟩ := List.mem_flatMap.mp hmem
  obtain ⟨rfl, hn⟩ := mem_orders hx
  have hok := hs.package pack hpack
  obtain rfl : owner pack.channel = h := Option.some.inj (hok.publication.symm.trans hp)
  rw [hok.owned (.inr (List.ne_nil_of_mem hn))] at hn
  exact hok.not_self hn

/-- Only the package of the owner orders copies, and there is one of them. -/
theorem Inv.ordered_le (hs : Inv s) (x : ℕ × ℕ) : s.ordered.count x ≤ 1 := by
  cases hp : s.published[x.1]? with
  | none =>
    refine (List.count_eq_zero.mpr fun hmem => ?_).le.trans (Nat.zero_le _)
    obtain ⟨pack, hpack, hx⟩ := List.mem_flatMap.mp hmem
    obtain ⟨heq, -⟩ := mem_orders hx
    have hok := (hs.package pack hpack).publication
    rw [heq, hp] at hok
    cases hok
  | some o =>
    have hle : s.ordered.count x ≤ (s.packages.map Package.copy).count (x.1, o) := by
      refine count_flatMap_le (fun pack hpack => count_orders_le (hs.package pack hpack) x) ?_
      intro pack hpack hx
      obtain ⟨heq, hn⟩ := mem_orders hx
      have hok := hs.package pack hpack
      have howner := hok.publication
      rw [heq, hp] at howner
      have hnode := hok.owned (.inr (List.ne_nil_of_mem hn))
      unfold Package.copy
      rw [heq, ← hnode, Option.some.inj howner]
    have hcopies := hs.copies (x.1, o)
    have hdue : due s.published (x.1, o) ≤ 1 := by
      unfold due
      split <;> omega
    rw [hs.not_ordered hp] at hcopies
    unfold State.copies at hcopies
    rw [List.count_append] at hcopies
    omega

/-- There is one copy of a publication for a node. -/
theorem Inv.copies_le (hs : Inv s) (x : ℕ × ℕ) : s.copies.count x ≤ 1 := by
  have hcopies := hs.copies x
  unfold due at hcopies
  by_cases hx : s.published[x.1]? = some x.2
  · have hzero : s.ordered.count x = 0 := hs.not_ordered hx
    rw [if_pos hx] at hcopies
    omega
  · have hle := hs.ordered_le x
    rw [if_neg hx] at hcopies
    omega

/-- No service is sent a publication twice. -/
theorem Inv.sends_nodup (hs : Inv s) : s.sends.Nodup := by
  refine List.nodup_iff_count_le_one.mpr fun x => ?_
  have hle : s.sends.count x ≤ (s.packages.map Package.copy).count (x.1, x.2.1) := by
    refine count_flatMap_le ?_ ?_
    · intro pack hpack
      refine List.nodup_iff_count_le_one.mp ?_ x
      refine List.Nodup.map (fun a b hab => (Prod.mk.inj (Prod.mk.inj hab).2).2) ?_
      by_cases hremote : pack.remote = none
      · exact ((hs.package pack hpack).settled hremote).nodup
      · rw [((hs.package pack hpack).unbound hremote).receivers]
        exact .nil
    · intro pack hpack hx
      obtain ⟨r, -, rfl⟩ := List.mem_map.mp hx
      rfl
  have hcopies := hs.copies_le (x.1, x.2.1)
  unfold State.copies at hcopies
  rw [List.count_append] at hcopies
  omega

/-! ## Parts of a step -/

theorem inv_init : Inv .init := by
  refine ⟨fun h => Multicastd.ok_init, ?_, ?_, fun x => Nat.zero_le _⟩
  · intro pack hpack
    cases hpack
  · intro post hpost
    cases hpost

theorem Inv.setNode (hs : Inv s) (hd : d.Ok h) : Inv (s.setNode h d) := by
  refine ⟨fun h' => ?_, hs.package, hs.post, hs.copies⟩
  unfold State.setNode
  dsimp only
  by_cases heq : h' = h
  · subst heq
    rw [update_self]
    exact hd
  · rw [update_of_ne heq]
    exact hs.node h'

/-- A message is put on its way. -/
theorem Inv.addPost (hs : Inv s) (hmessage : post.message.Ok s.published post.dest)
    (hcopy : ∀ x ∈ post.copy, s.copies.count x < due s.published x + s.ordered.count x) :
    Inv { s with posts := s.posts ++ [post] } := by
  refine ⟨hs.node, hs.package, ?_, fun x => ?_⟩
  · intro post' hpost
    rcases List.mem_append.mp hpost with hold | hnew
    · exact hs.post post' hold
    · rw [List.mem_singleton.mp hnew]
      exact hmessage
  · have hcopies := hs.copies x
    have hcount : (({ s with posts := s.posts ++ [post] } : State).copies).count x =
        s.copies.count x + post.copy.toList.count x := by
      unfold State.copies
      dsimp only
      rw [List.filterMap_append, List.count_append, List.count_append, List.count_append]
      cases hpost : post.copy with
      | none =>
        rw [List.filterMap_cons_none hpost]
        show _ + 0 + _ = _ + 0
        omega
      | some y =>
        rw [List.filterMap_cons_some hpost]
        show _ + List.count x [y] + _ = _ + List.count x [y]
        omega
    rw [hcount]
    show _ ≤ due s.published x + s.ordered.count x
    cases hpost : post.copy with
    | none => exact hcopies
    | some y =>
      rw [Option.toList_some, List.count_singleton]
      by_cases hxy : y = x
      · subst hxy
        have hlt := hcopy y hpost
        rw [if_pos (beq_self_eq_true y)]
        omega
      · rw [if_neg (by simpa using hxy)]
        exact hcopies

theorem Inv.send (hs : Inv s) {resume : Option ℕ} (hmessage : message.Ok s.published dest)
    (hcopy : ∀ p ∈ message.publication,
      s.copies.count (p, dest) < due s.published (p, dest) + s.ordered.count (p, dest)) :
    Inv (s.send src dest message resume) := by
  have hpost : ∀ sent resume x, x ∈ Post.copy ⟨src, dest, message, sent, resume⟩ →
      s.copies.count x < due s.published x + s.ordered.count x := by
    intro sent resume x hx
    obtain ⟨p, hp, rfl⟩ := Option.map_eq_some_iff.mp hx
    exact hcopy p hp
  unfold State.send
  by_cases hknown : dest ∈ (s.node src).nodeAddress
  · rw [if_pos hknown]
    exact hs.addPost hmessage (hpost _ _)
  · rw [if_neg hknown]
    have hsrc : Inv (s.setNode src { s.node src with running := none }) :=
      hs.setNode ((hs.node src).running none)
    exact hsrc.addPost hmessage (hpost _ _)

/-- A package takes the place of another state of it. -/
theorem Inv.setPackage (hs : Inv s) {pack' : Package} (hget : s.packages[k]? = some pack)
    (hok : pack'.Ok s.published) (hcopy : pack'.copy = pack.copy)
    (horders : ∀ x, pack.orders.count x ≤ pack'.orders.count x) :
    Inv { s with packages := s.packages.set k pack' } ∧
      ∀ x, ({ s with packages := s.packages.set k pack' } : State).copies.count x =
          s.copies.count x ∧
        ({ s with packages := s.packages.set k pack' } : State).ordered.count x +
          pack.orders.count x = s.ordered.count x + pack'.orders.count x := by
  have hperm := cons_set_perm (a := pack') hget
  have hcopies : ∀ x, ({ s with packages := s.packages.set k pack' } : State).copies.count x =
      s.copies.count x := by
    intro x
    have hcount := ((hperm.map Package.copy).count_eq x)
    rw [List.map_cons, List.map_cons, List.count_cons, List.count_cons, hcopy] at hcount
    unfold State.copies
    rw [List.count_append, List.count_append]
    dsimp only
    omega
  have hordered : ∀ x, ({ s with packages := s.packages.set k pack' } : State).ordered.count x +
      pack.orders.count x = s.ordered.count x + pack'.orders.count x := by
    intro x
    have hcount := (hperm.flatMap_right Package.orders).count_eq x
    rw [List.flatMap_cons, List.flatMap_cons, List.count_append, List.count_append] at hcount
    unfold State.ordered
    dsimp only
    omega
  refine ⟨⟨hs.node, ?_, hs.post, fun x => ?_⟩, fun x => ⟨hcopies x, hordered x⟩⟩
  · intro pack'' hmem
    rcases List.mem_or_eq_of_mem_set hmem with hold | rfl
    · exact hs.package pack'' hold
    · exact hok
  · have hle := hs.copies x
    have heq := hordered x
    have hlt := horders x
    rw [hcopies]
    show _ ≤ due s.published x + _
    omega

/-- A new package -/
theorem Inv.addPackage (hs : Inv s) (hok : pack.Ok s.published)
    (hcopy : s.copies.count pack.copy < due s.published pack.copy + s.ordered.count pack.copy)
    (hvisited : pack.visited = []) : Inv { s with packages := s.packages ++ [pack] } := by
  refine ⟨hs.node, ?_, hs.post, fun x => ?_⟩
  · intro pack' hmem
    rcases List.mem_append.mp hmem with hold | hnew
    · exact hs.package pack' hold
    · rw [List.mem_singleton.mp hnew]
      exact hok
  · have hcopies := hs.copies x
    have hordered : ({ s with packages := s.packages ++ [pack] } : State).ordered = s.ordered := by
      unfold State.ordered
      rw [List.flatMap_append, List.flatMap_singleton, Package.orders, hvisited]
      exact List.append_nil _
    have hcount : ({ s with packages := s.packages ++ [pack] } : State).copies.count x =
        s.copies.count x + [pack.copy].count x := by
      unfold State.copies
      rw [List.map_append, List.count_append, List.count_append, List.count_append]
      exact (Nat.add_assoc _ _ _).symm
    rw [hordered, hcount, List.count_singleton]
    show _ ≤ due s.published x + _
    by_cases hxy : pack.copy = x
    · subst hxy
      rw [if_pos (beq_self_eq_true _)]
      omega
    · rw [if_neg (by simpa using hxy)]
      exact hcopies

/-- The end of `publish` -/
theorem published_ok (hd : d.Ok h) (hpack : pack.Ok published) (hunbound : pack.Unbound) :
    Package.Ok published ((d.publishLocal { pack with remote := none }).getD
      { pack with remote := none }) ∧
    ((d.publishLocal { pack with remote := none }).getD { pack with remote := none }).copy =
      pack.copy ∧
    ((d.publishLocal { pack with remote := none }).getD { pack with remote := none }).orders =
      pack.orders := by
  obtain ⟨reference, bound, receivers, freed, hlocal, hsettled⟩ :=
    @publishLocal_spec h d { pack with remote := none } hd
      ⟨hunbound.reference, hunbound.receivers, hunbound.opened, hunbound.freed⟩
  rw [hlocal, Option.getD_some]
  refine ⟨⟨hpack.publication, hpack.quiet, hpack.visited, hpack.not_self, ?_, ?_, ?_⟩, rfl, rfl⟩
  · exact fun howned => howned.elim (fun h => (h rfl).elim) fun h => hpack.owned (.inr h)
  · exact fun hne => (hne rfl).elim
  · exact fun _ => hsettled

/-- A copy comes to its node. -/
theorem Inv.publish (hs : Inv s) (hp : s.published[p]? = some (owner c))
    (hcopy : s.copies.count (p, h) < due s.published (p, h) + s.ordered.count (p, h)) :
    Inv (s.publish h c source p) := by
  unfold State.publish
  dsimp only
  cases hremote : (s.node h).channelRemote c with
  | some t =>
    have hnode : Inv (s.setNode h { s.node h with running := some s.packages.length }) :=
      hs.setNode ((hs.node h).running _)
    refine hnode.addPackage ?_ hcopy rfl
    refine ⟨hp, rfl, .nil, List.not_mem_nil, ?_, ?_, ?_⟩
    · exact fun _ => (hs.node h).remote c t hremote
    · exact fun _ => ⟨rfl, rfl, rfl, rfl⟩
    · intro hnone
      cases hnone
  | none =>
    obtain ⟨reference, bound, receivers, freed, hlocal, hsettled⟩ :=
      @publishLocal_spec h (s.node h) ⟨h, c, source, p, none, [], false, 0, none, [], [], 0⟩
        (hs.node h) ⟨rfl, rfl, rfl, rfl⟩
    dsimp only
    rw [hlocal, Option.getD_some]
    refine hs.addPackage ?_ hcopy rfl
    refine ⟨hp, rfl, .nil, List.not_mem_nil, ?_, fun hne => (hne rfl).elim, fun _ => hsettled⟩
    exact fun howned => howned.elim (fun h => (h rfl).elim) fun h => (h rfl).elim

/-! ## The commands -/

theorem Inv.pub (hs : Inv s) : Inv (s.pub h source c) := by
  have hp : (s.published ++ [owner c])[s.published.length]? = some (owner c) := by
    rw [List.getElem?_append_right le_rfl, Nat.sub_self]
    rfl
  have hnew : Inv { s with published := s.published ++ [owner c] } :=
    ⟨hs.node, fun pack hpack => (hs.package pack hpack).publish,
      fun post hpost => (hs.post post hpost).publish,
      fun x => (hs.copies x).trans (Nat.add_le_add_right (due_le x) _)⟩
  -- nobody has a copy yet
  have hcopy : s.copies.count (s.published.length, owner c) <
      due (s.published ++ [owner c]) (s.published.length, owner c) +
        s.ordered.count (s.published.length, owner c) := by
    have hcopies := hs.copies (s.published.length, owner c)
    have hold : due s.published (s.published.length, owner c) = 0 :=
      if_neg (by rw [List.getElem?_eq_none le_rfl]; exact fun h => by cases h)
    have hdue : due (s.published ++ [owner c]) (s.published.length, owner c) = 1 := if_pos hp
    omega
  unfold State.pub
  dsimp only
  by_cases hc : owner c = h
  · rw [if_neg (not_not.mpr hc)]
    exact hnew.publish hp (hc ▸ hcopy)
  · rw [if_pos hc]
    refine hnew.send ?_ ?_
    · show (s.published ++ [owner c])[_]? = _
      rw [owner_session]
      exact hp
    · intro p hpub
      cases hpub
      exact hcopy

theorem Inv.sendPlain (hs : Inv s) (hmessage : message.Ok s.published dest)
    (hplain : message.publication = none) : Inv (s.send src dest message none) := by
  refine hs.send hmessage fun p hp => ?_
  rw [hplain] at hp
  cases hp

theorem Inv.del (hs : Inv s) : Inv (s.del h c) := by
  have hd := hs.node h
  unfold State.del
  dsimp only
  by_cases hc : owner c = h
  · rw [if_neg (not_not.mpr hc)]
    have hd' : Multicastd.Ok h
        { (s.node h).delr c with
          channelRemote := update (s.node h).channelRemote c none
          used := (s.node h).used.filter (· ≠ c) } := by
      have hforget := (hd.forget (c := c)).delr (c := c) (by simp)
      exact hforget.noRemote
    cases (s.node h).channelRemote c with
    | none => exact hs.setNode hd'
    | some t =>
      dsimp only
      have hnodes : ∀ node ∈ (s.node h).table t, owner c ≠ node := by
        rintro node hnode rfl
        exact hd.not_mem_table t (hc ▸ hnode)
      have hinv := hs.setNode hd'
      generalize (s.node h).table t = nodes at hnodes
      generalize s.setNode h _ = s' at hinv
      induction nodes generalizing s' with
      | nil => exact hinv
      | cons node nodes ih =>
        refine ih (fun n hn => hnodes n (List.mem_cons_of_mem _ hn)) _ ?_
        exact hinv.sendPlain (hnodes node List.mem_cons_self) rfl
  · rw [if_pos hc]
    exact hs.sendPlain trivial rfl

theorem Inv.sub (hs : Inv s) : Inv (s.sub h source c) := by
  unfold State.sub
  dsimp only
  split
  · exact hs.sendPlain trivial rfl
  · exact hs.setNode ((hs.node h).subscribe source)

theorem Inv.usub (hs : Inv s) : Inv (s.usub h source c) := by
  have hd := hs.node h
  unfold State.usub
  dsimp only
  cases hgroup : (s.node h).channel c with
  | none => exact hs
  | some group =>
    have hn : (s.node h).channelN c = some group.length := by rw [hd.counted, hgroup]; rfl
    rw [hn]
    dsimp only
    by_cases hmem : source ∈ group
    · rw [if_pos hmem]
      split
      · rename_i hlast
        exact (hs.setNode (hd.delr (hd.not_used hlast.2))).sendPlain trivial rfl
      · exact hs.setNode (hd.unsubscribe hgroup hmem)
    · rw [if_neg hmem]
      exact hs

theorem Inv.subr (hs : Inv s)
    (hquiet : ∀ t ∈ (s.node h).channelRemote c, ∀ pack ∈ s.packages,
      pack.node = h → pack.remote = some t → src ∈ (s.node h).table t) :
    Inv (s.subr src h c source) := by
  have hreply : ∀ {s : State} {missing : Bool}, Inv s →
      Inv { s with posts := s.posts ++ [⟨h, src, .reply c source missing, true, none⟩] } :=
    fun hs => hs.addPost trivial fun x hx => by cases hx
  unfold State.subr
  dsimp only
  cases (s.node h).channel c with
  | none => exact hreply hs
  | some group =>
    dsimp only
    by_cases hbad : src = h ∨ owner c ≠ h
    · rw [if_pos hbad]
      exact hs
    · rw [if_neg hbad]
      rw [not_or, not_not] at hbad
      -- no loop goes through the table
      have hsame : ∀ t ∈ (s.node h).channelRemote c,
          (if src ∈ (s.node h).table t then s.packages else s.insert h t) = s.packages := by
        intro t ht
        split
        · rfl
        · rename_i hmem
          refine (List.map_congr_left fun pack hpack => ?_).trans (List.map_id _)
          exact if_neg fun hloop => hmem (hquiet t ht pack hpack hloop.1 hloop.2)
      have hadd := hs.setNode ((hs.node h).addRemote (n := src) hbad.1 hbad.2)
      cases hremote : (s.node h).channelRemote c with
      | none => exact hreply hadd
      | some t =>
        dsimp only
        rw [hsame t hremote]
        exact hreply hadd

/-- The copy that arrives has been on its way. -/
theorem Inv.arrive (hs : Inv s) (hget : s.posts[i]? = some post) :
    Inv { s with posts := s.posts.eraseIdx i } ∧ ∀ x,
      ({ s with posts := s.posts.eraseIdx i } : State).copies.count x +
        post.copy.toList.count x = s.copies.count x := by
  have hcount : ∀ x, ({ s with posts := s.posts.eraseIdx i } : State).copies.count x +
      post.copy.toList.count x = s.copies.count x := by
    intro x
    have hperm := ((perm_cons_eraseIdx hget).filterMap Post.copy).count_eq x
    unfold State.copies
    rw [List.count_append, List.count_append, hperm, List.filterMap_cons]
    cases post.copy with
    | none => rfl
    | some y =>
      rw [List.count_cons, Option.toList_some, List.count_singleton]
      dsimp only
      omega
  refine ⟨⟨hs.node, hs.package, fun post' hmem => ?_, fun x => ?_⟩, hcount⟩
  · exact hs.post post' (List.mem_of_mem_eraseIdx hmem)
  · have hle := hs.copies x
    have hx := hcount x
    show _ ≤ due s.published x + s.ordered.count x
    omega

theorem Inv.deliver (hs : Inv s) (hget : s.posts[i]? = some post) (hquiet : Quiet s (.deliver i)) :
    Inv ({ s with posts := s.posts.eraseIdx i }.dispatch post.src post.dest post.message) := by
  obtain ⟨hinv, hcount⟩ := hs.arrive hget
  have hok := hs.post post (List.mem_of_getElem? hget)
  have hd := hs.node post.dest
  unfold State.dispatch
  cases hmessage : post.message with
  | del c => exact hinv.del
  | delr c =>
    rw [hmessage] at hok
    exact hinv.setNode (hd.delr (hd.not_used hok))
  | multicast c source p =>
    rw [hmessage] at hok
    refine hinv.publish hok ?_
    have hx := hcount (p, post.dest)
    have hle := hs.copies (p, post.dest)
    have hcopy : post.copy = some (p, post.dest) := by
      unfold Post.copy
      rw [hmessage]
      rfl
    rw [hcopy, Option.toList_some, List.count_singleton_self] at hx
    show _ < due s.published _ + s.ordered.count _
    omega
  | subr c source =>
    refine hinv.subr fun t ht pack hpack hnode hremote => ?_
    exact hquiet post hget c (by rw [hmessage]; rfl) t ht pack hpack hnode hremote
  | reply c source missing => exact hinv.setNode (hd.subscribed source missing)
  | usubr c =>
    dsimp only
    split
    · exact hinv
    · exact hinv.setNode hd.usubr

theorem Inv.address (hs : Inv s) (hget : s.posts[i]? = some post) :
    Inv
      { s.setNode post.src
          { s.node post.src with
            nodeAddress := post.dest :: (s.node post.src).nodeAddress
            running := post.resume } with
        posts := s.posts.set i { post with sent := true, resume := none } } := by
  have hd := hs.node post.src
  have hnode := hs.setNode (h := post.src) (d := { s.node post.src with
      nodeAddress := post.dest :: (s.node post.src).nodeAddress
      running := post.resume })
    ⟨hd.counted, hd.nodup, hd.used_nodup, hd.used, hd.id, hd.remote, hd.tables⟩
  have hperm := cons_set_perm (a := { post with sent := true, resume := none }) hget
  refine ⟨hnode.node, hnode.package, fun post' hmem => ?_, fun x => ?_⟩
  · rcases List.mem_or_eq_of_mem_set hmem with hold | rfl
    · exact hs.post post' hold
    · exact hs.post post (List.mem_of_getElem? hget)
  · refine le_of_eq_of_le ?_ (hs.copies x)
    have hcount := (hperm.filterMap Post.copy).count_eq x
    have hsame : Post.copy { post with sent := true, resume := none } = post.copy := rfl
    unfold State.copies
    rw [List.count_append, List.count_append]
    rw [List.filterMap_cons, List.filterMap_cons, hsame] at hcount
    cases hcopy : post.copy with
    | none =>
      rw [hcopy] at hcount
      exact congrArg (· + _) hcount
    | some y =>
      rw [hcopy] at hcount
      dsimp only at hcount ⊢
      rw [List.count_cons, List.count_cons] at hcount
      show _ + List.count x (s.packages.map Package.copy) = _
      omega

/-- The loop is at its end. -/
theorem Inv.finish (hs : Inv s) (hget : s.packages[k]? = some pack) {t : ℕ}
    (hremote : pack.remote = some t) : Inv (s.finish k pack) := by
  have hok := hs.package pack (List.mem_of_getElem? hget)
  have hunbound := hok.unbound (by rw [hremote]; exact Option.some_ne_none t)
  obtain ⟨hpublished, hcopy, horders⟩ := published_ok (hs.node pack.node) hok hunbound
  have hnode : Inv (s.setNode pack.node { s.node pack.node with running := none }) :=
    hs.setNode ((hs.node pack.node).running none)
  exact (hnode.setPackage hget hpublished hcopy fun x => by rw [horders]).1

/-- The loop sends a copy to a node that it has not had. -/
theorem Inv.visit (hs : Inv s) (hget : s.packages[k]? = some pack) {t : ℕ}
    (hremote : pack.remote = some t) (hnext : Next ((s.node pack.node).table t) pack (some n)) :
    Inv ({ s with
      packages := s.packages.set k { pack with visited := pack.visited ++ [n] } }.send pack.node n
        (.multicast (session pack.channel) pack.source pack.publication) (some k)) := by
  have hok := hs.package pack (List.mem_of_getElem? hget)
  have hsome : pack.remote ≠ none := by rw [hremote]; exact Option.some_ne_none t
  obtain ⟨htable, hfresh⟩ := hnext
  have hn : n ∉ pack.visited := by
    rw [hok.quiet] at hfresh
    exact hfresh.resolve_left Bool.false_ne_true
  have hself : n ≠ pack.node := fun heq =>
    (hs.node pack.node).not_mem_table t (heq ▸ htable)
  have hpack : Package.Ok s.published { pack with visited := pack.visited ++ [n] } := by
    refine ⟨hok.publication, hok.quiet, ?_, ?_, fun _ => hok.owned (.inl hsome), ?_, ?_⟩
    · exact hok.visited.append (List.nodup_singleton n) (List.disjoint_singleton.mpr hn)
    · rw [List.mem_append, List.mem_singleton]
      exact fun h => h.elim hok.not_self hself.symm
    · exact fun h =>
        have hunbound := hok.unbound h
        ⟨hunbound.reference, hunbound.receivers, hunbound.opened, hunbound.freed⟩
    · exact fun hnone => (hsome hnone).elim
  have horders : Package.orders { pack with visited := pack.visited ++ [n] } =
      pack.orders ++ [(pack.publication, n)] := List.map_append
  obtain ⟨hinv, hcount⟩ := hs.setPackage hget hpack rfl fun x => by
    rw [horders, List.count_append]
    omega
  refine hinv.send ?_ fun p hp => ?_
  · show s.published[_]? = _
    rw [owner_session]
    exact hok.publication
  · cases hp
    obtain ⟨hcopies, hordered⟩ := hcount (pack.publication, n)
    rw [horders, List.count_append, List.count_singleton_self] at hordered
    have hle := hs.copies (pack.publication, n)
    show _ < due s.published _ + _
    omega

theorem Inv.close (hs : Inv s) (hget : s.packages[k]? = some pack) (hmem : source ∈ pack.opened) :
    Inv { s with
      packages :=
        s.packages.set k { pack.closelocal with opened := pack.opened.erase source } } := by
  have hok := hs.package pack (List.mem_of_getElem? hget)
  have hnone : pack.remote = none := by
    by_contra hne
    rw [(hok.unbound hne).opened] at hmem
    cases hmem
  refine (@Inv.setPackage _ _ _ hs
    { pack.closelocal with opened := pack.opened.erase source } hget ?_ rfl fun x => le_rfl).1
  refine ⟨hok.publication, hok.quiet, hok.visited, hok.not_self, hok.owned, ?_, ?_⟩
  · exact fun hne => (hne hnone).elim
  · exact fun _ => (hok.settled hnone).close hmem

/-! ## Runs -/

theorem Inv.step {a : Action} (hs : Inv s) (hquiet : Quiet s a) (hstep : s.step a = some s') :
    Inv s' := by
  unfold State.step at hstep
  cases a with
  | new h =>
    obtain ⟨⟨-, hlt⟩, hnew⟩ := Option.ite_none_right_eq_some.mp hstep
    obtain ⟨d, hd, rfl⟩ := Option.map_eq_some_iff.mp hnew
    exact hs.setNode ((hs.node h).new hlt hd)
  | del h c =>
    obtain ⟨-, hsome⟩ := Option.ite_none_right_eq_some.mp hstep
    exact Option.some.inj hsome ▸ hs.del
  | sub h source c =>
    obtain ⟨-, hsome⟩ := Option.ite_none_right_eq_some.mp hstep
    exact Option.some.inj hsome ▸ hs.sub
  | usub h source c =>
    obtain ⟨-, hsome⟩ := Option.ite_none_right_eq_some.mp hstep
    exact Option.some.inj hsome ▸ hs.usub
  | pub h source c =>
    obtain ⟨-, hsome⟩ := Option.ite_none_right_eq_some.mp hstep
    exact Option.some.inj hsome ▸ hs.pub
  | deliver i =>
    obtain ⟨post, hget, hrest⟩ := Option.bind_eq_some_iff.mp hstep
    obtain ⟨-, hsome⟩ := Option.ite_none_right_eq_some.mp hrest
    exact Option.some.inj hsome ▸ hs.deliver hget hquiet
  | address i =>
    obtain ⟨post, hget, hrest⟩ := Option.bind_eq_some_iff.mp hstep
    obtain ⟨-, hsome⟩ := Option.ite_none_right_eq_some.mp hrest
    exact Option.some.inj hsome ▸ hs.address hget
  | next k key =>
    obtain ⟨pack, hget, hrest⟩ := Option.bind_eq_some_iff.mp hstep
    obtain ⟨t, hremote, hloop⟩ := Option.bind_eq_some_iff.mp hrest
    obtain ⟨⟨-, hnext⟩, hsome⟩ := Option.ite_none_right_eq_some.mp hloop
    cases key with
    | none => exact Option.some.inj hsome ▸ hs.finish hget hremote
    | some n => exact Option.some.inj hsome ▸ hs.visit hget hremote hnext
  | close k source =>
    obtain ⟨pack, hget, hrest⟩ := Option.bind_eq_some_iff.mp hstep
    obtain ⟨hmem, hsome⟩ := Option.ite_none_right_eq_some.mp hrest
    exact Option.some.inj hsome ▸ hs.close hget hmem

end

/-- Packages live as long as they are needed. Those that have been published are bound with the
number of services that they have been sent to, and freed when all of these have closed them, or at
once when there are none. -/
structure Good (s : State) : Prop where
  counted : ∀ h c, (s.node h).channelN c = ((s.node h).channel c).map List.length
  bound : ∀ pack ∈ s.packages, pack.remote = none → pack.receivers ≠ [] →
    pack.bound = some pack.receivers.length ∧ pack.freed = if pack.opened = [] then 1 else 0
  dead : ∀ pack ∈ s.packages, pack.remote = none → pack.receivers = [] → pack.freed = 1
  waiting : ∀ pack ∈ s.packages, pack.remote ≠ none → pack.receivers = [] ∧ pack.freed = 0
  once : s.sends.Nodup
  used : ∀ h, (s.node h).used.Nodup

theorem Inv.good {s : State} (hs : Inv s) : Good s := by
  refine ⟨fun h => (hs.node h).counted, ?_, ?_, ?_, hs.sends_nodup, fun h => (hs.node h).used_nodup⟩
  · intro pack hpack hnone hne
    have hsettled := (hs.package pack hpack).settled hnone
    exact ⟨hsettled.bound hne, hsettled.freed⟩
  · intro pack hpack hnone hnil
    have hsettled := (hs.package pack hpack).settled hnone
    rw [hsettled.freed, if_pos (hsettled.none hnil)]
  · intro pack hpack hne
    have hunbound := (hs.package pack hpack).unbound hne
    exact ⟨hunbound.receivers, hunbound.freed⟩

/-- **Multicast keeps its promises while no node joins a loop.** In every run in which no SUBR puts
a node into a table that a loop of `publish` goes through, everything holds in every state. -/
theorem publications_once {actions : List Action} {s : State}
    (hquiet : Guarded State.step Quiet .init actions)
    (hrun : run State.step .init actions = some s) : Good s :=
  (run_invariant (fun _ _ _ hs hok hstep => hs.step hok hstep) inv_init hquiet hrun).good

/-- Two services of the owner and one of another node get a publication; two of them close it. -/
theorem publications_once_closed :
    ∃ s, run State.step .init [.new 1, .sub 6 60 1, .address 0, .deliver 0, .deliver 0, .sub 1 50 1,
        .sub 1 51 1, .pub 1 10 1, .next 0 (some 6), .address 0, .next 0 none, .deliver 0,
        .close 1 60, .close 0 50] = some s ∧
      s.sends = [(0, 1, 50), (0, 1, 51), (0, 6, 60)] ∧ Good s := by
  refine ⟨_, rfl, by decide, ?_⟩
  exact @publications_once [.new 1, .sub 6 60 1, .address 0, .deliver 0, .deliver 0,
    .sub 1 50 1, .sub 1 51 1, .pub 1 10 1, .next 0 (some 6), .address 0, .next 0 none, .deliver 0,
    .close 1 60, .close 0 50] _ (by decide) rfl

/-- Nodes 6 and 5 have joined channel 1. While its owner looks up the address of node 5, which comes
after node 6 in the table, node 8 joins, and `next` gives node 6 again: with three keys, 5 comes
before 6. -/
theorem publication_twice :
    ∃ s, run State.step .init [.new 1, .sub 6 60 1, .address 0, .deliver 0, .deliver 0, .sub 5 50 1,
        .address 0, .deliver 0, .deliver 0, .pub 1 10 1, .next 0 (some 6), .address 0,
        .next 0 (some 5), .sub 8 80 1, .address 2, .deliver 2, .deliver 2, .address 1,
        .next 0 (some 6), .next 0 none, .deliver 0, .deliver 1] = some s ∧
      s.sends = [(0, 6, 60), (0, 6, 60)] ∧ ¬Good s := by
  refine ⟨_, rfl, by decide, fun hgood => ?_⟩
  have honce := hgood.once
  revert honce
  decide

end SkynetEureka.Multicast
