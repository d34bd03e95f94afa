import SkynetEureka.Lib.Lists
import SkynetEureka.Lib.Run
import SkynetEureka.Multicast.Links

/-!
# Subscriptions of other nodes

Each step of the daemons is a step of every link. A node that leaves a channel while a call of it is on
its way is the exception: the owner grants the call, and forgets the node when it hears that it has
left.
-/

namespace SkynetEureka.Multicast

open Lib Function

variable {s s' : State} {h n k src dest i source : ℕ} {c c' : ℤ} {d : Multicastd}
  {message : Message} {post : Post} {resume : Option ℕ}

/-! ## What a step changes -/

theorem link_setNode : (s.setNode k d).link h c =
    { s.link h c with
      joined := if h = k then (d.channel c).isSome else (s.link h c).joined
      member := if owner c = k then d.remote h c else (s.link h c).member } := by
  unfold State.link State.setNode
  dsimp only
  rw [update_apply, update_apply]
  by_cases hk : h = k
  · rw [if_pos hk, if_pos hk]
    split <;> rfl
  · rw [if_neg hk, if_neg hk]
    split <;> rfl

/-- A daemon has joined the same channels, and knows the same nodes. -/
theorem link_same (hjoined : ∀ c, (d.channel c).isSome = ((s.node k).channel c).isSome)
    (hremote : ∀ h c, d.remote h c = (s.node k).remote h c) :
    (s.setNode k d).link h c = s.link h c := by
  rw [link_setNode]
  have hjoined' : (if h = k then (d.channel c).isSome else (s.link h c).joined) =
      (s.link h c).joined := by
    split
    · rename_i hk
      rw [hjoined, ← hk]
      rfl
    · rfl
  have hmember : (if owner c = k then d.remote h c else (s.link h c).member) =
      (s.link h c).member := by
    split
    · rename_i hk
      rw [hremote, ← hk]
      rfl
    · rfl
  rw [hjoined', hmember]

theorem remote_eq {d' : Multicastd} (hremote : d'.channelRemote = d.channelRemote)
    (htables : d'.tables = d.tables) : d'.remote h c = d.remote h c := by
  unfold Multicastd.remote Multicastd.table
  rw [hremote, htables]

/-- What a daemon knows of channels and tables stays the same. -/
theorem link_keep (hchannel : d.channel = (s.node k).channel)
    (hremote : d.channelRemote = (s.node k).channelRemote) (htables : d.tables = (s.node k).tables) :
    (s.setNode k d).link h c = s.link h c :=
  link_same (fun c => by rw [hchannel]) fun _ _ => remote_eq hremote htables

theorem link_post : ({ s with posts := s.posts ++ [post] } : State).link h c =
    { s.link h c with
      up := (s.link h c).up ++ (post.message.up h c post.src).toList
      down := (s.link h c).down ++ (post.message.down h c post.dest).toList } := by
  have hone : ∀ {β : Type} (g : Post → Option β), [post].filterMap g = (g post).toList := by
    intro β g
    rw [List.filterMap_cons]
    cases g post <;> rfl
  unfold State.link
  dsimp only
  rw [List.filterMap_append, List.filterMap_append, hone, hone]
  rfl

theorem link_send : (s.send src dest message resume).link h c =
    { s.link h c with
      up := (s.link h c).up ++ (message.up h c src).toList
      down := (s.link h c).down ++ (message.down h c dest).toList } := by
  unfold State.send
  split
  · exact link_post
  · have hkeep : (s.setNode src { s.node src with running := none }).link h c = s.link h c :=
      link_keep rfl rfl rfl
    have hpost := @link_post (s.setNode src { s.node src with running := none }) h c
      ⟨src, dest, message, false, resume⟩
    rw [hkeep] at hpost
    exact hpost

/-- A message that is in no link -/
theorem link_send_other (hup : ∀ h c, message.up h c src = none)
    (hdown : ∀ h c, message.down h c dest = none) :
    (s.send src dest message resume).link h c = s.link h c := by
  rw [link_send, hup, hdown]
  simp

theorem Wired.setNode (hs : Wired s) (hd : d.Linked k) : Wired (s.setNode k d) := by
  refine ⟨fun h => ?_, hs.post⟩
  show (update s.node k d h).Linked h
  by_cases heq : h = k
  · subst heq
    rw [update_self]
    exact hd
  · rw [update_of_ne heq]
    exact hs.node h

theorem Wired.add (hs : Wired s) (hpost : post.message.Routed post.src post.dest) :
    Wired { s with posts := s.posts ++ [post] } := by
  refine ⟨hs.node, fun post' hpost' => ?_⟩
  rcases List.mem_append.mp hpost' with hold | hnew
  · exact hs.post post' hold
  · rw [List.mem_singleton.mp hnew]
    exact hpost

theorem Wired.send (hs : Wired s) (hmessage : message.Routed src dest) :
    Wired (s.send src dest message resume) := by
  unfold State.send
  split
  · exact hs.add hmessage
  · have hnode := hs.node src
    exact (hs.setNode (hnode.keep (hnode.ok.running none) rfl rfl rfl)).add hmessage

theorem Linked.of_step (hs : Linked s) (hwired : Wired s')
    (hlink : ∀ h c, h ≠ owner c → Link.Step (s.link h c) (s'.link h c)) : Linked s' :=
  ⟨hwired, fun h c hne => (hlink h c hne).ok (hs.link h c hne)⟩

/-- A step that changes no link -/
theorem Linked.of_eq (hs : Linked s) (hwired : Wired s')
    (hlink : ∀ h c, s'.link h c = s.link h c) : Linked s' :=
  hs.of_step hwired fun h c _ => by
    rw [hlink]
    exact .same

/-! ## SUB and USUB -/

theorem Multicastd.Linked.subscribe (hd : d.Linked h) : (d.subscribe source c).Linked h := by
  have hok := hd.ok.subscribe (c := c) source
  unfold Multicastd.subscribe at hok ⊢
  cases hgroup : d.channel c with
  | none => exact hd
  | some group =>
    have hn : d.channelN c = some group.length := by rw [hd.ok.counted, hgroup]; rfl
    rw [hgroup, hn] at hok
    rw [hn]
    dsimp only at hok ⊢
    by_cases hmem : source ∈ group
    · rw [if_pos hmem]
      exact hd
    · rw [if_neg hmem] at hok ⊢
      exact hd.write hok rfl rfl rfl fun _ => by simp

theorem subscribe_isSome : ((d.subscribe source c').channel c).isSome = (d.channel c).isSome := by
  unfold Multicastd.subscribe
  split
  · rename_i group n hgroup hn
    split
    · rfl
    · dsimp only
      by_cases heq : c = c'
      · subst heq
        rw [update_self, hgroup]
        rfl
      · rw [update_of_ne heq]
  · rfl

theorem subscribe_remote : (d.subscribe source c').remote h c = d.remote h c := by
  unfold Multicastd.subscribe
  split
  · split <;> rfl
  · rfl

theorem Linked.sub (hs : Linked s) : Linked (s.sub k source c) := by
  unfold State.sub
  dsimp only
  split
  · rename_i hother
    refine hs.of_step (hs.toWired.send ⟨Ne.symm hother.1, rfl⟩) fun h c' hne => ?_
    rw [link_send]
    by_cases hlink : c = c' ∧ k = h
    · have hup : (Message.subr c source).up h c' k = some .subr := if_pos hlink
      rw [hup]
      show Link.Step _ ⟨_, _, _ ++ [_], _ ++ []⟩
      rw [List.append_nil]
      exact .call
    · have hup : (Message.subr c source).up h c' k = none := if_neg hlink
      rw [hup]
      show Link.Step _ ⟨_, _, _ ++ [], _ ++ []⟩
      rw [List.append_nil, List.append_nil]
      exact .same
  · exact hs.of_eq (hs.toWired.setNode (hs.node k).subscribe) fun h c' =>
      link_same (fun _ => subscribe_isSome) fun _ _ => subscribe_remote

/-- No call of the node for the channel is on its way, nor an answer to one. -/
def State.Uncalled (s : State) (h : ℕ) (c : ℤ) : Prop :=
  ∀ post ∈ s.posts, post.up h c ≠ some .subr ∧ post.down h c ≠ some .granted

theorem Linked.usub (hs : Linked s)
    (hleave : owner c ≠ k → source ∈ ((s.node k).channel c).getD [] →
      (s.node k).channelN c = some 1 → s.Uncalled k c) :
    Linked (s.usub k source c) := by
  have hd := hs.node k
  unfold State.usub
  dsimp only
  cases hgroup : (s.node k).channel c with
  | none => exact hs
  | some group =>
    have hn : (s.node k).channelN c = some group.length := by rw [hd.ok.counted, hgroup]; rfl
    rw [hn]
    dsimp only
    by_cases hmem : source ∈ group
    · rw [if_pos hmem]
      have hok := hd.ok.unsubscribe hgroup hmem
      split
      · rename_i hlast
        rw [hgroup, hn, hlast.1] at hleave
        have huncalled := hleave hlast.2 hmem rfl
        have hdelr := hd.write (hd.ok.delr (hd.ok.not_used hlast.2)) rfl rfl rfl fun _ => nofun
        refine hs.of_step ((hs.toWired.setNode hdelr).send ⟨Ne.symm hlast.2, rfl⟩) fun h c' hne => ?_
        rw [link_send, link_setNode]
        have hmember : (if owner c' = k then ((s.node k).delr c).remote h c' else (s.link h c').member) =
            (s.link h c').member := by
          split
          · rename_i hk
            rw [← hk]
            rfl
          · rfl
        rw [hmember]
        by_cases hlink : c = c' ∧ k = h
        · obtain ⟨rfl, rfl⟩ := hlink
          have hdown : .granted ∉ (s.link k c).down := by
            intro hmem
            obtain ⟨post, hpost, hgranted⟩ := List.mem_filterMap.mp hmem
            exact (huncalled post hpost).2 hgranted
          have hup : (s.link k c).up = [] := by
            cases hs.link k c hne with
            | settled hsubr _ =>
              refine List.eq_nil_iff_forall_not_mem.mpr fun u hu => ?_
              obtain ⟨post, hpost, hu'⟩ := List.mem_filterMap.mp hu
              rw [hsubr u hu] at hu'
              exact (huncalled post hpost).1 hu'
            | leaving _ _ _ hjoined _ =>
              have hjoined' : ((s.node k).channel c).isSome = false := hjoined
              rw [hgroup] at hjoined'
              cases hjoined'
          have hsent : (Message.usubr c).up k c k = some .usubr := if_pos ⟨rfl, rfl⟩
          have hnone : (update (s.node k).channel c none c).isSome = false := by rw [update_self]; rfl
          rw [hsent, if_pos rfl]
          show Link.Step _ ⟨(update (s.node k).channel c none c).isSome, _, (s.link k c).up ++ [.usubr],
            (s.link k c).down ++ []⟩
          rw [hnone, hup, List.append_nil]
          exact .leave hup hdown
        · have hsent : (Message.usubr c).up h c' k = none := if_neg hlink
          have hjoined : (if h = k then (((s.node k).delr c).channel c').isSome
              else (s.link h c').joined) = (s.link h c').joined := by
            split
            · rename_i hk
              show (update (s.node k).channel c none c').isSome = ((s.node h).channel c').isSome
              rw [update_of_ne fun heq => hlink ⟨heq.symm, hk.symm⟩, hk]
            · rfl
          rw [hsent, hjoined]
          show Link.Step _ ⟨_, _, (s.link h c').up ++ [], (s.link h c').down ++ []⟩
          rw [List.append_nil, List.append_nil]
          exact .same
      · rename_i hlast
        have hrest : owner c ≠ k → some (group.erase source) ≠ some [] := by
          intro hother hnil
          have hlength := List.length_erase_of_mem hmem
          have hpos := List.length_pos_of_mem hmem
          rw [Option.some.inj hnil, List.length_nil] at hlength
          exact hlast ⟨by omega, hother⟩
        refine hs.of_eq (hs.toWired.setNode (hd.write hok rfl rfl rfl hrest)) fun h c' =>
          link_same (fun c' => ?_) fun _ _ => rfl
        dsimp only
        by_cases heq : c' = c
        · subst heq
          rw [update_self, hgroup]
          rfl
        · rw [update_of_ne heq]
    · rw [if_neg hmem]
      exact hs

/-! ## DEL -/

/-- The messages of DEL to the nodes of a table -/
theorem link_delrs (nodes : List ℕ) :
    ∃ n, (nodes.foldl (fun s node => s.send k node (.delr c') none) s).link h c =
        { s.link h c with down := (s.link h c).down ++ List.replicate n .deleted } ∧
      (c' ≠ c → n = 0) ∧ (c' = c → h ∈ nodes → 0 < n) := by
  induction nodes generalizing s with
  | nil =>
    refine ⟨0, ?_, fun _ => rfl, fun _ hmem => by cases hmem⟩
    show s.link h c = ⟨_, _, _, _ ++ []⟩
    rw [List.append_nil]
  | cons node nodes ih =>
    obtain ⟨n, heq, hzero, hpos⟩ := @ih (s.send k node (.delr c') none)
    rw [List.foldl_cons, heq, link_send]
    by_cases hlink : c' = c ∧ node = h
    · have hdown : (Message.delr c').down h c node = some .deleted := if_pos hlink
      refine ⟨n + 1, ?_, fun hne => (hne hlink.1).elim, fun _ _ => Nat.succ_pos n⟩
      rw [hdown]
      show Link.mk _ _ (_ ++ []) (_ ++ [_] ++ _) = _
      rw [List.append_nil, List.append_assoc, List.replicate_succ]
      rfl
    · have hdown : (Message.delr c').down h c node = none := if_neg hlink
      refine ⟨n, ?_, hzero, fun heq' hmem => ?_⟩
      · rw [hdown]
        show Link.mk _ _ (_ ++ []) (_ ++ [] ++ _) = _
        rw [List.append_nil, List.append_nil]
      · rcases List.mem_cons.mp hmem with rfl | hrest
        · exact (hlink ⟨heq', rfl⟩).elim
        · exact hpos heq' hrest

theorem Wired.delrs (hs : Wired s) {nodes : List ℕ} (hnodes : ∀ node ∈ nodes, node ≠ owner c) :
    Wired (nodes.foldl (fun s node => s.send (owner c) node (.delr c) none) s) := by
  induction nodes generalizing s with
  | nil => exact hs
  | cons node nodes ih =>
    refine ih (hs.send ⟨rfl, hnodes node List.mem_cons_self⟩) fun n hn => ?_
    exact hnodes n (List.mem_cons_of_mem _ hn)

theorem Linked.del (hs : Linked s) : Linked (s.del k c) := by
  unfold State.del
  dsimp only
  by_cases hother : owner c ≠ k
  · rw [if_pos hother]
    exact hs.of_eq (hs.toWired.send trivial) fun h c' => link_send_other (fun _ _ => rfl) fun _ _ => rfl
  · rw [if_neg hother]
    obtain rfl : owner c = k := not_not.mp hother
    have hd := hs.node (owner c)
    let d : Multicastd :=
      { (s.node (owner c)).delr c with
        channelRemote := update (s.node (owner c)).channelRemote c none
        used := (s.node (owner c)).used.filter (· ≠ c) }
    have hok : d.Ok (owner c) := by
      have hforget := (hd.ok.forget (c := c)).delr (c := c) (by simp)
      exact hforget.noRemote
    have hwired : Wired (s.setNode (owner c) d) := hs.toWired.setNode (hd.remove hok rfl rfl rfl)
    -- the owner forgets who was in the table
    have hlink : ∀ h c', h ≠ owner c' → (s.setNode (owner c) d).link h c' =
        { s.link h c' with member := if c' = c then false else (s.link h c').member } := by
      intro h c' hne
      rw [link_setNode]
      have hjoined : (if h = owner c then (d.channel c').isSome else (s.link h c').joined) =
          (s.link h c').joined := by
        split
        · rename_i hh
          have hcc : c' ≠ c := by
            rintro rfl
            exact hne hh
          show (update (s.node (owner c)).channel c none c').isSome = ((s.node h).channel c').isSome
          rw [update_of_ne hcc, hh]
        · rfl
      have hmember : (if owner c' = owner c then d.remote h c' else (s.link h c').member) =
          if c' = c then false else (s.link h c').member := by
        by_cases hcc : c' = c
        · subst hcc
          rw [if_pos rfl, if_pos rfl]
          show (update (s.node (owner c')).channelRemote c' none c').any _ = false
          rw [update_self]
          rfl
        · rw [if_neg hcc]
          split
          · rename_i hoo
            have hsame : d.remote h c' = (s.node (owner c)).remote h c' := by
              show (update (s.node (owner c)).channelRemote c none c').any _ = _
              rw [update_of_ne hcc]
              rfl
            rw [hsame, ← hoo]
            rfl
          · rfl
      rw [hjoined, hmember]
    cases hremote : (s.node (owner c)).channelRemote c with
    | none =>
      refine hs.of_step hwired fun h c' hne => ?_
      rw [hlink h c' hne]
      by_cases hcc : c' = c
      · subst hcc
        have hnot : (s.link h c').member = false := by
          show (s.node (owner c')).remote h c' = false
          unfold Multicastd.remote
          rw [hremote]
          rfl
        rw [if_pos rfl, ← hnot]
        exact .same
      · rw [if_neg hcc]
        exact .same
    | some t =>
      dsimp only
      have hnodes : ∀ node ∈ (s.node (owner c)).table t, node ≠ owner c := by
        rintro node hnode rfl
        exact hd.ok.not_mem_table t hnode
      refine hs.of_step (hwired.delrs hnodes) fun h c' hne => ?_
      obtain ⟨n, heq, hzero, hpos⟩ := @link_delrs (s.setNode (owner c) d) h (owner c) c' c
        ((s.node (owner c)).table t)
      rw [heq, hlink h c' hne]
      by_cases hcc : c' = c
      · subst hcc
        rw [if_pos rfl]
        refine .delete n fun hmember => hpos rfl ?_
        have hmember : (s.node (owner c')).remote h c' = true := hmember
        unfold Multicastd.remote at hmember
        rw [hremote] at hmember
        exact of_decide_eq_true hmember
      · rw [if_neg hcc, hzero (Ne.symm hcc)]
        show Link.Step _ ⟨_, _, _, _ ++ []⟩
        rw [List.append_nil]
        exact .same

/-! ## Messages -/

/-- A message arrives before the later ones of its sender to the same node. -/
def Fifo (s : State) : Action → Prop
  | .deliver i => ∀ post ∈ s.posts[i]?, ∀ j < i, ∀ post' ∈ s.posts[j]?,
    ¬(post'.src = post.src ∧ post'.dest = post.dest)
  | _ => True

theorem up_routed {u : Up} (hrouted : post.message.Routed post.src post.dest)
    (hup : post.up h c = some u) : post.src = h ∧ post.dest = owner c := by
  unfold Post.up Message.up at hup
  unfold Message.Routed at hrouted
  cases hmessage : post.message <;> rw [hmessage] at hup hrouted <;> dsimp only at hup hrouted
  all_goals first
    | cases hup
    | obtain ⟨⟨rfl, hsrc⟩, -⟩ := Option.ite_none_right_eq_some.mp hup
      exact ⟨hsrc, hrouted.2⟩

theorem down_routed {u : Down} (hrouted : post.message.Routed post.src post.dest)
    (hdown : post.down h c = some u) : post.src = owner c ∧ post.dest = h := by
  unfold Post.down Message.down at hdown
  unfold Message.Routed at hrouted
  cases hmessage : post.message <;> rw [hmessage] at hdown hrouted <;> dsimp only at hdown hrouted
  case reply =>
    obtain ⟨⟨⟨rfl, hdest⟩, -⟩, -⟩ := Option.ite_none_right_eq_some.mp hdown
    exact ⟨hrouted.1, hdest⟩
  case delr =>
    obtain ⟨⟨rfl, hdest⟩, -⟩ := Option.ite_none_right_eq_some.mp hdown
    exact ⟨hrouted.1, hdest⟩
  all_goals cases hdown

/-- The message that arrives was the first one of its link. -/
theorem link_arrive (hs : Linked s) (hget : s.posts[i]? = some post) (hfifo : Fifo s (.deliver i)) :
    s.link h c =
      { ({ s with posts := s.posts.eraseIdx i } : State).link h c with
        up := (post.up h c).toList ++
          (({ s with posts := s.posts.eraseIdx i } : State).link h c).up
        down := (post.down h c).toList ++
          (({ s with posts := s.posts.eraseIdx i } : State).link h c).down } := by
  have hrouted := hs.post post (List.mem_of_getElem? hget)
  have hup : s.posts.filterMap (Post.up h c) =
      (post.up h c).toList ++ (s.posts.eraseIdx i).filterMap (Post.up h c) := by
    refine filterMap_eraseIdx hget fun u hu j hj post' hpost' => ?_
    cases hu' : post'.up h c with
    | none => rfl
    | some u' =>
      obtain ⟨hsrc, hdest⟩ := up_routed hrouted hu
      obtain ⟨hsrc', hdest'⟩ := up_routed (hs.post post' (List.mem_of_getElem? hpost')) hu'
      exact (hfifo post hget j hj post' hpost' ⟨hsrc'.trans hsrc.symm, hdest'.trans hdest.symm⟩).elim
  have hdown : s.posts.filterMap (Post.down h c) =
      (post.down h c).toList ++ (s.posts.eraseIdx i).filterMap (Post.down h c) := by
    refine filterMap_eraseIdx hget fun u hu j hj post' hpost' => ?_
    cases hu' : post'.down h c with
    | none => rfl
    | some u' =>
      obtain ⟨hsrc, hdest⟩ := down_routed hrouted hu
      obtain ⟨hsrc', hdest'⟩ := down_routed (hs.post post' (List.mem_of_getElem? hpost')) hu'
      exact (hfifo post hget j hj post' hpost' ⟨hsrc'.trans hsrc.symm, hdest'.trans hdest.symm⟩).elim
  unfold State.link
  dsimp only
  rw [hup, hdown]

theorem Wired.erase (hs : Wired s) : Wired { s with posts := s.posts.eraseIdx i } :=
  ⟨hs.node, fun post hpost => hs.post post (List.mem_of_mem_eraseIdx hpost)⟩

theorem Multicastd.Linked.subscribed (hd : d.Linked h) (missing : Bool) :
    (d.subscribed source c missing).Linked h := by
  cases missing with
  | true => exact hd
  | false =>
    have hok := hd.ok.subscribed (c := c) source false
    unfold Multicastd.subscribed at hok ⊢
    rw [if_neg Bool.false_ne_true] at hok ⊢
    cases hgroup : d.channel c with
    | some group => exact hd.subscribe
    | none =>
      -- the new table gets its first subscriber
      rw [hgroup] at hok
      dsimp only at hok ⊢
      unfold Multicastd.subscribe at hok ⊢
      dsimp only at hok ⊢
      rw [update_self, update_self] at hok ⊢
      dsimp only at hok ⊢
      rw [if_neg List.not_mem_nil] at hok ⊢
      exact hd.write hok (by rw [update_idem]) rfl rfl fun _ => by simp

theorem subscribed_isSome : ((d.subscribed source c' false).channel c).isSome =
    if c = c' then true else (d.channel c).isSome := by
  unfold Multicastd.subscribed
  rw [if_neg Bool.false_ne_true, subscribe_isSome]
  cases hgroup : d.channel c' with
  | some group =>
    dsimp only
    split
    · rename_i heq
      rw [heq, hgroup]
      rfl
    · rfl
  | none =>
    dsimp only
    split
    · rename_i heq
      rw [heq, update_self]
      rfl
    · rename_i hne
      rw [update_of_ne hne]

theorem subscribed_remote {missing : Bool} :
    (d.subscribed source c' missing).remote h c = d.remote h c := by
  cases missing with
  | true => rfl
  | false =>
    unfold Multicastd.subscribed
    rw [if_neg Bool.false_ne_true, subscribe_remote]
    cases d.channel c' with
    | some group => rfl
    | none => rfl

/-- A message that is in no link is handled. -/
theorem Linked.publish (hs : Linked s) {publication : ℕ} : Linked (s.publish k c source publication) := by
  have hd := hs.node k
  unfold State.publish
  dsimp only
  split
  · refine @Linked.of_eq s { s.setNode k { s.node k with running := some s.packages.length } with
      packages := _ } hs ?_ ?_
    · have hwired := hs.toWired.setNode
        (hd.keep (hd.ok.running (some s.packages.length)) rfl rfl rfl)
      exact ⟨hwired.node, hwired.post⟩
    · intro h c'
      exact @link_keep s h k c' { s.node k with running := some s.packages.length } rfl rfl rfl
  · exact hs.of_eq ⟨hs.node, hs.post⟩ fun _ _ => rfl

/-- What a message does to the links, when it is the first one of its link -/
theorem Linked.arrive (hs : Linked s) (hget : s.posts[i]? = some post) (hfifo : Fifo s (.deliver i))
    (hwired : Wired s')
    (hlink : ∀ h c, h ≠ owner c → ∀ l, l = ({ s with posts := s.posts.eraseIdx i } : State).link h c →
      Link.Step { l with
        up := (post.message.up h c post.src).toList ++ l.up
        down := (post.message.down h c post.dest).toList ++ l.down } (s'.link h c)) : Linked s' := by
  refine hs.of_step hwired fun h c hne => ?_
  rw [link_arrive hs hget hfifo]
  exact hlink h c hne _ rfl

/-- DELR: the node loses the channel. -/
theorem Linked.delr (hs : Linked s) (hget : s.posts[i]? = some post) (hfifo : Fifo s (.deliver i))
    (hmessage : post.message = .delr c) :
    Linked (({ s with posts := s.posts.eraseIdx i } : State).setNode post.dest
      ((s.node post.dest).delr c)) := by
  have hrouted := hs.post post (List.mem_of_getElem? hget)
  rw [hmessage] at hrouted
  have hd := hs.node post.dest
  have hok := hd.ok.delr (hd.ok.not_used (Ne.symm hrouted.2))
  refine hs.arrive hget hfifo (hs.toWired.erase.setNode (hd.write hok rfl rfl rfl fun _ => nofun)) ?_
  intro h c' hne l hl
  have hmember : (if owner c' = post.dest then ((s.node post.dest).delr c).remote h c' else l.member) =
      l.member := by
    split
    · rename_i hk
      rw [hl, ← hk]
      rfl
    · rfl
  rw [link_setNode, ← hl, hmember, hmessage]
  by_cases hlink : c = c' ∧ post.dest = h
  · obtain ⟨rfl, rfl⟩ := hlink
    have hdown : (Message.delr c).down post.dest c post.dest = some .deleted := if_pos ⟨rfl, rfl⟩
    have hjoined : (((s.node post.dest).delr c).channel c).isSome = false := by
      show (update (s.node post.dest).channel c none c).isSome = false
      rw [update_self]
      rfl
    rw [if_pos rfl, hjoined, hdown]
    exact .deleted rfl
  · have hdown : (Message.delr c).down h c' post.dest = none := if_neg hlink
    have hjoined : (if h = post.dest then (((s.node post.dest).delr c).channel c').isSome
        else l.joined) = l.joined := by
      split
      · rename_i hk
        show (update (s.node post.dest).channel c none c').isSome = _
        rw [update_of_ne fun heq => hlink ⟨heq.symm, hk.symm⟩, hl, ← hk]
        rfl
      · rfl
    rw [hjoined, hdown]
    exact .same

/-- USUBR: the owner forgets the node. -/
theorem Linked.usubr (hs : Linked s) (hget : s.posts[i]? = some post) (hfifo : Fifo s (.deliver i))
    (hmessage : post.message = .usubr c) :
    Linked (({ s with posts := s.posts.eraseIdx i } : State).setNode post.dest
      ((s.node post.dest).usubr post.src c)) := by
  have hrouted := hs.post post (List.mem_of_getElem? hget)
  rw [hmessage] at hrouted
  have hd := hs.node post.dest
  refine hs.arrive hget hfifo (hs.toWired.erase.setNode hd.usubr) ?_
  intro h c' hne l hl
  have hjoined : (if h = post.dest then (((s.node post.dest).usubr post.src c).channel c').isSome
      else l.joined) = l.joined := by
    split
    · rename_i hk
      have hchannel : ((s.node post.dest).usubr post.src c).channel = (s.node post.dest).channel := by
        unfold Multicastd.usubr
        split <;> rfl
      rw [hchannel, hl, ← hk]
      rfl
    · rfl
  rw [link_setNode, ← hl, hjoined, hmessage, hd.remote_usubr]
  by_cases hlink : c = c' ∧ post.src = h
  · obtain ⟨rfl, rfl⟩ := hlink
    have hup : (Message.usubr c).up post.src c post.src = some .usubr := if_pos ⟨rfl, rfl⟩
    rw [if_pos hrouted.2.symm, if_pos ⟨rfl, rfl⟩, hup]
    exact .left rfl
  · have hup : (Message.usubr c).up h c' post.src = none := if_neg hlink
    have hmember : (if owner c' = post.dest then
        if c' = c ∧ h = post.src then false else (s.node post.dest).remote h c' else l.member) =
          l.member := by
      split
      · rename_i hk
        rw [if_neg fun heq => hlink ⟨heq.1.symm, heq.2.symm⟩, hl, ← hk]
        rfl
      · rfl
    rw [hmember, hup]
    exact .same

/-- The answer to SUBR: the node has the channel, if it is there. -/
theorem Linked.reply (hs : Linked s) (hget : s.posts[i]? = some post) (hfifo : Fifo s (.deliver i))
    {missing : Bool} (hmessage : post.message = .reply c source missing) :
    Linked (({ s with posts := s.posts.eraseIdx i } : State).setNode post.dest
      ((s.node post.dest).subscribed source c missing)) := by
  have hd := hs.node post.dest
  refine hs.arrive hget hfifo (hs.toWired.erase.setNode (hd.subscribed missing)) ?_
  intro h c' hne l hl
  have hmember : (if owner c' = post.dest then
      ((s.node post.dest).subscribed source c missing).remote h c' else l.member) = l.member := by
    split
    · rename_i hk
      rw [subscribed_remote, hl, ← hk]
      rfl
    · rfl
  rw [link_setNode, ← hl, hmember, hmessage]
  have hsame : (if h = post.dest then ((s.node post.dest).channel c').isSome else l.joined) =
      l.joined := by
    split
    · rename_i hk
      rw [hl, ← hk]
      rfl
    · rfl
  cases missing with
  | true =>
    have hdown : (Message.reply c source true).down h c' post.dest = none := if_neg fun h => nomatch h.2
    rw [hdown]
    show Link.Step _ { l with
      joined := if h = post.dest then ((s.node post.dest).channel c').isSome else l.joined }
    rw [hsame]
    exact .same
  | false =>
    rw [subscribed_isSome]
    by_cases hlink : c = c' ∧ post.dest = h
    · obtain ⟨rfl, rfl⟩ := hlink
      have hdown : (Message.reply c source false).down post.dest c post.dest = some .granted :=
        if_pos ⟨⟨rfl, rfl⟩, rfl⟩
      rw [if_pos rfl, if_pos rfl, hdown]
      exact .granted rfl
    · have hdown : (Message.reply c source false).down h c' post.dest = none :=
        if_neg fun h => hlink h.1
      have hjoined : (if h = post.dest then
          if c' = c then true else ((s.node post.dest).channel c').isSome else l.joined) = l.joined := by
        by_cases hk : h = post.dest
        · rw [if_pos hk, if_neg fun heq => hlink ⟨heq.symm, hk.symm⟩]
          rw [if_pos hk] at hsame
          exact hsame
        · rw [if_neg hk]
      rw [hjoined, hdown]
      exact .same

/-- SUBR: the owner knows the node, and answers. -/
theorem Linked.subr (hs : Linked s) (hget : s.posts[i]? = some post) (hfifo : Fifo s (.deliver i))
    (hmessage : post.message = .subr c source) :
    Linked (({ s with posts := s.posts.eraseIdx i } : State).subr post.src post.dest c source) := by
  have hrouted := hs.post post (List.mem_of_getElem? hget)
  rw [hmessage] at hrouted
  obtain ⟨hsrc, hdest⟩ := hrouted
  rw [hdest]
  let answer (missing : Bool) : Post := ⟨owner c, post.src, .reply c source missing, true, none⟩
  have hanswer : ∀ missing, (answer missing).message.Routed (answer missing).src (answer missing).dest :=
    fun _ => ⟨rfl, hsrc⟩
  let t : State := { s with posts := s.posts.eraseIdx i }
  have ht : Wired t := hs.toWired.erase
  unfold State.subr
  dsimp only
  cases hgroup : (s.node (owner c)).channel c with
  | none =>
    refine hs.arrive hget hfifo (ht.add (hanswer true)) ?_
    intro h c' hne l hl
    have hdown : (answer true).message.down h c' (answer true).dest = none := if_neg fun h => nomatch h.2
    have hup : (answer true).message.up h c' (answer true).src = none := rfl
    have hlink' : ({ t with posts := t.posts ++ [answer true] } : State).link h c' = l := by
      rw [link_post, ← hl, hdown, hup]
      show Link.mk _ _ (_ ++ []) (_ ++ []) = l
      rw [List.append_nil, List.append_nil]
    show Link.Step _ (({ t with posts := t.posts ++ [answer true] } : State).link h c')
    rw [hlink', hmessage]
    by_cases hlink : c = c' ∧ post.src = h
    · have hcall : (Message.subr c source).up h c' post.src = some .subr := if_pos hlink
      rw [hcall]
      exact .missing rfl
    · have hcall : (Message.subr c source).up h c' post.src = none := if_neg hlink
      rw [hcall]
      exact .same
  | some group =>
    dsimp only
    have hbad : ¬(post.src = owner c ∨ owner c ≠ owner c) := by simp [hsrc]
    rw [if_neg hbad]
    have hd := hs.node (owner c)
    have hwired := ht.setNode (hd.addRemote hsrc rfl)
    have hadded := hwired.add (hanswer false)
    refine hs.arrive hget hfifo ⟨hadded.node, hadded.post⟩ ?_
    intro h c' hne l hl
    have hjoined : (if h = owner c then (((s.node (owner c)).addRemote post.src c).channel c').isSome
        else l.joined) = l.joined := by
      split
      · rename_i hk
        have hchannel : ((s.node (owner c)).addRemote post.src c).channel =
            (s.node (owner c)).channel := by
          unfold Multicastd.addRemote
          split <;> rfl
        rw [hchannel, hl, ← hk]
        rfl
      · rfl
    have hup : (answer false).message.up h c' (answer false).src = none := rfl
    have hlink' : ({ t.setNode (owner c) ((s.node (owner c)).addRemote post.src c) with
        posts := t.posts ++ [answer false] } : State).link h c' =
        { l with
          member := if owner c' = owner c then
            if c' = c ∧ h = post.src then true else (s.node (owner c)).remote h c' else l.member
          up := l.up ++ []
          down := l.down ++ ((answer false).message.down h c' (answer false).dest).toList } := by
      have hpost := @link_post (t.setNode (owner c) ((s.node (owner c)).addRemote post.src c)) h c'
        (answer false)
      rw [link_setNode, ← hl, hjoined, hd.remote_addRemote, hup] at hpost
      exact hpost
    show Link.Step _ (({ t.setNode (owner c) ((s.node (owner c)).addRemote post.src c) with
        posts := t.posts ++ [answer false] } : State).link h c')
    rw [hlink', hmessage, List.append_nil]
    by_cases hlink : c = c' ∧ post.src = h
    · obtain ⟨rfl, rfl⟩ := hlink
      have hcall : (Message.subr c source).up post.src c post.src = some .subr := if_pos ⟨rfl, rfl⟩
      have hdown : (answer false).message.down post.src c (answer false).dest = some .granted :=
        if_pos ⟨⟨rfl, rfl⟩, rfl⟩
      rw [if_pos rfl, if_pos ⟨rfl, rfl⟩, hcall, hdown]
      exact .grant rfl
    · have hcall : (Message.subr c source).up h c' post.src = none := if_neg hlink
      have hdown : (answer false).message.down h c' (answer false).dest = none :=
        if_neg fun h => hlink h.1
      have hmember : (if owner c' = owner c then
          if c' = c ∧ h = post.src then true else (s.node (owner c)).remote h c' else l.member) =
            l.member := by
        split
        · rename_i hk
          rw [if_neg fun heq => hlink ⟨heq.1.symm, heq.2.symm⟩, hl, ← hk]
          rfl
        · rfl
      rw [hmember, hcall, hdown]
      show Link.Step _ ⟨_, _, _, _ ++ []⟩
      rw [List.append_nil]
      exact .same

/-- A message that is in no link is taken out. -/
theorem Linked.erase (hs : Linked s) (hget : s.posts[i]? = some post) (hfifo : Fifo s (.deliver i))
    (hup : ∀ h c, post.message.up h c post.src = none)
    (hdown : ∀ h c, post.message.down h c post.dest = none) :
    Linked { s with posts := s.posts.eraseIdx i } := by
  refine hs.arrive hget hfifo hs.toWired.erase fun h c hne l hl => ?_
  rw [hup, hdown, ← hl]
  exact .same

theorem Linked.deliver (hs : Linked s) (hget : s.posts[i]? = some post)
    (hfifo : Fifo s (.deliver i)) :
    Linked (({ s with posts := s.posts.eraseIdx i } : State).dispatch post.src post.dest
      post.message) := by
  cases hmessage : post.message with
  | del c =>
    exact (hs.erase hget hfifo (by rw [hmessage]; exact fun _ _ => rfl)
      (by rw [hmessage]; exact fun _ _ => rfl)).del
  | delr c => exact hs.delr hget hfifo hmessage
  | multicast c source publication =>
    exact (hs.erase hget hfifo (by rw [hmessage]; exact fun _ _ => rfl)
      (by rw [hmessage]; exact fun _ _ => rfl)).publish
  | subr c source => exact hs.subr hget hfifo hmessage
  | reply c source missing => exact hs.reply hget hfifo hmessage
  | usubr c =>
    have hrouted := hs.post post (List.mem_of_getElem? hget)
    rw [hmessage] at hrouted
    unfold State.dispatch
    dsimp only
    rw [if_neg fun heq : post.src = post.dest => hrouted.1 (heq.trans hrouted.2)]
    exact hs.usubr hget hfifo hmessage

/-! ## The other steps -/

theorem Linked.new (hs : Linked s) (hlt : k < 256) (hnew : (s.node k).new = some d) :
    Linked (s.setNode k d) := by
  have hok := (hs.node k).ok.new hlt hnew
  unfold Multicastd.new at hnew
  obtain ⟨id, hfree, hsome⟩ := Option.bind_eq_some_iff.mp hnew
  obtain rfl := Option.some.inj hsome
  have howner : owner id = k := (freeId_spec hfree).2.trans ((hs.node k).ok.id hlt)
  have hfilled : owner id ≠ k → some [] ≠ some ([] : List ℕ) := fun hne => (hne howner).elim
  refine hs.of_step (hs.toWired.setNode ((hs.node k).write hok rfl rfl rfl hfilled))
    fun h c hne => ?_
  rw [link_setNode]
  have hjoined : (if h = k then (update (s.node k).channel id (some []) c).isSome
      else (s.link h c).joined) = (s.link h c).joined := by
    split
    · rename_i hk
      have hcid : c ≠ id := by
        rintro rfl
        exact hne (hk.trans howner.symm)
      rw [update_of_ne hcid, ← hk]
      rfl
    · rfl
  have hmember : (if owner c = k then (s.node k).remote h c else (s.link h c).member) =
      (s.link h c).member := by
    split
    · rename_i hk
      rw [← hk]
      rfl
    · rfl
  show Link.Step _ ⟨if h = k then (update (s.node k).channel id (some []) c).isSome
    else (s.link h c).joined, if owner c = k then (s.node k).remote h c else (s.link h c).member, _, _⟩
  rw [hjoined, hmember]
  exact .same

theorem Linked.pub (hs : Linked s) : Linked (s.pub k source c) := by
  have hpublished : Linked { s with published := s.published ++ [owner c] } :=
    hs.of_eq ⟨hs.node, hs.post⟩ fun _ _ => rfl
  unfold State.pub
  dsimp only
  split
  · exact hpublished.of_eq (hpublished.toWired.send trivial) fun h c' =>
      link_send_other (fun _ _ => rfl) fun _ _ => rfl
  · exact hpublished.publish

theorem Linked.address (hs : Linked s) (hget : s.posts[i]? = some post) {addresses : List ℕ}
    {running : Option ℕ} :
    Linked { s.setNode post.src
        { s.node post.src with nodeAddress := addresses, running := running } with
      posts := s.posts.set i { post with sent := true, resume := none } } := by
  have hd := hs.node post.src
  have hok : Multicastd.Ok post.src
      { s.node post.src with nodeAddress := addresses, running := running } :=
    ⟨hd.ok.counted, hd.ok.nodup, hd.ok.used_nodup, hd.ok.used, hd.ok.id, hd.ok.remote, hd.ok.tables⟩
  have hwired := hs.toWired.setNode (hd.keep hok rfl rfl rfl)
  refine hs.of_eq ⟨hwired.node, fun post' hpost' => ?_⟩ fun h c => ?_
  · rcases List.mem_or_eq_of_mem_set hpost' with hold | rfl
    · exact hs.post post' hold
    · exact hs.post post (List.mem_of_getElem? hget)
  · have hkeep := @link_keep s h post.src c
      { s.node post.src with nodeAddress := addresses, running := running } rfl rfl rfl
    have hup : (s.posts.set i { post with sent := true, resume := none }).filterMap (Post.up h c) =
        s.posts.filterMap (Post.up h c) := filterMap_set hget rfl
    have hdown : (s.posts.set i { post with sent := true, resume := none }).filterMap
        (Post.down h c) = s.posts.filterMap (Post.down h c) := filterMap_set hget rfl
    rw [← hkeep]
    unfold State.link
    dsimp only
    rw [hup, hdown]
    rfl

theorem Linked.finish (hs : Linked s) {pack : Package} : Linked (s.finish n pack) := by
  have hd := hs.node pack.node
  have hwired := hs.toWired.setNode (hd.keep (hd.ok.running none) rfl rfl rfl)
  refine hs.of_eq ⟨hwired.node, hwired.post⟩ fun h c => ?_
  exact @link_keep s h pack.node c { s.node pack.node with running := none } rfl rfl rfl

/-! ## Runs -/

/-- A node leaves a channel of another node only while no SUBR of it for the channel, and no answer
that grants one, is on its way. -/
def LeavesUncalled (s : State) : Action → Prop
  | .usub k source c => owner c ≠ k → source ∈ ((s.node k).channel c).getD [] →
    (s.node k).channelN c = some 1 → s.Uncalled k c
  | _ => True

theorem Linked.step {a : Action} (hs : Linked s) (hfifo : Fifo s a) (hleaves : LeavesUncalled s a)
    (hstep : s.step a = some s') : Linked s' := by
  unfold State.step at hstep
  cases a with
  | new k =>
    obtain ⟨⟨-, hlt⟩, hnew⟩ := Option.ite_none_right_eq_some.mp hstep
    obtain ⟨d, hd, rfl⟩ := Option.map_eq_some_iff.mp hnew
    exact hs.new hlt hd
  | del k c =>
    obtain ⟨-, hsome⟩ := Option.ite_none_right_eq_some.mp hstep
    exact Option.some.inj hsome ▸ hs.del
  | sub k source c =>
    obtain ⟨-, hsome⟩ := Option.ite_none_right_eq_some.mp hstep
    exact Option.some.inj hsome ▸ hs.sub
  | usub k source c =>
    obtain ⟨-, hsome⟩ := Option.ite_none_right_eq_some.mp hstep
    exact Option.some.inj hsome ▸ hs.usub hleaves
  | pub k source c =>
    obtain ⟨-, hsome⟩ := Option.ite_none_right_eq_some.mp hstep
    exact Option.some.inj hsome ▸ hs.pub
  | deliver i =>
    obtain ⟨post, hget, hrest⟩ := Option.bind_eq_some_iff.mp hstep
    obtain ⟨-, hsome⟩ := Option.ite_none_right_eq_some.mp hrest
    exact Option.some.inj hsome ▸ hs.deliver hget hfifo
  | address i =>
    obtain ⟨post, hget, hrest⟩ := Option.bind_eq_some_iff.mp hstep
    obtain ⟨-, hsome⟩ := Option.ite_none_right_eq_some.mp hrest
    exact Option.some.inj hsome ▸ hs.address hget
  | next k key =>
    obtain ⟨pack, hget, hrest⟩ := Option.bind_eq_some_iff.mp hstep
    obtain ⟨t, hremote, hloop⟩ := Option.bind_eq_some_iff.mp hrest
    obtain ⟨-, hsome⟩ := Option.ite_none_right_eq_some.mp hloop
    cases key with
    | none => exact Option.some.inj hsome ▸ hs.finish
    | some n =>
      have hpackages : Linked { s with
          packages := s.packages.set k { pack with visited := pack.visited ++ [n] } } :=
        hs.of_eq ⟨hs.node, hs.post⟩ fun _ _ => rfl
      refine Option.some.inj hsome ▸ hpackages.of_eq (hpackages.toWired.send trivial) fun h c => ?_
      exact link_send_other (fun _ _ => rfl) fun _ _ => rfl
  | close k source =>
    obtain ⟨pack, hget, hrest⟩ := Option.bind_eq_some_iff.mp hstep
    obtain ⟨-, hsome⟩ := Option.ite_none_right_eq_some.mp hrest
    exact Option.some.inj hsome ▸ hs.of_eq ⟨hs.node, hs.post⟩ fun _ _ => rfl

/-- The channel that a message about subscriptions is about -/
def Message.about : Message → Option ℤ
  | .del c | .delr c | .subr c _ | .reply c _ _ | .usubr c => some c
  | .multicast .. => none

/-- A node has subscribers for a channel of another node exactly when the owner knows it, as soon as
no message about the channel is on its way. -/
structure Consistent (s : State) : Prop where
  subscribers : ∀ h c, h ≠ owner c → ∀ group ∈ (s.node h).channel c, group ≠ []
  agree : ∀ h c, h ≠ owner c → (∀ post ∈ s.posts, post.message.about ≠ some c) →
    ((s.node h).channel c ≠ none ↔ (s.node (owner c)).remote h c = true)

instance (s : State) (h : ℕ) (c : ℤ) : Decidable (s.Uncalled h c) :=
  inferInstanceAs (Decidable (∀ post ∈ s.posts,
    post.up h c ≠ some .subr ∧ post.down h c ≠ some .granted))

instance (s : State) : (a : Action) → Decidable (LeavesUncalled s a)
  | .usub k source c => inferInstanceAs (Decidable (owner c ≠ k →
    source ∈ ((s.node k).channel c).getD [] → (s.node k).channelN c = some 1 → s.Uncalled k c))
  | .new _ | .del .. | .sub .. | .pub .. | .deliver _ | .address _ | .next .. | .close .. =>
    inferInstanceAs (Decidable True)

instance (s : State) : (a : Action) → Decidable (Fifo s a)
  | .deliver i => inferInstanceAs (Decidable (∀ post ∈ s.posts[i]?, ∀ j < i,
    ∀ post' ∈ s.posts[j]?, ¬(post'.src = post.src ∧ post'.dest = post.dest)))
  | .new _ | .del .. | .sub .. | .usub .. | .pub .. | .address _ | .next .. | .close .. =>
    inferInstanceAs (Decidable True)

end SkynetEureka.Multicast
