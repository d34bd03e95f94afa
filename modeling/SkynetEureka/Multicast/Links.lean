import SkynetEureka.Multicast.Invariants

/-!
# The link of a node to the owner of a channel

A node joins a channel by a call of its owner, and leaves it by a message that is not answered. `Link`
is what both sides know, with the messages between them in the order in which they are sent.
-/

namespace SkynetEureka.Multicast

open Lib Function

/-! ## Links -/

/-- A message to the owner -/
inductive Up where
  | subr
  | usubr
  deriving DecidableEq

/-- A message of the owner, which has granted a SUBR or deleted the channel -/
inductive Down where
  | granted
  | deleted
  deriving DecidableEq

structure Link where
  joined : Bool
  member : Bool
  up : List Up
  down : List Down

namespace Link

variable {l l' : Link}

/-- What the node will have when the messages of the owner have come -/
def view (l : Link) : Bool := l.down.getLast?.elim l.joined fun d => d == .granted

/-- What can happen to a link. A node may only leave it when no call of it is on its way. -/
inductive Step (l : Link) : Link → Prop
  | same : Step l l
  | call : Step l { l with up := l.up ++ [.subr] }
  | grant {rest : List Up} (h : l.up = .subr :: rest) :
    Step l { l with member := true, up := rest, down := l.down ++ [.granted] }
  | missing {rest : List Up} (h : l.up = .subr :: rest) : Step l { l with up := rest }
  | leave (h : l.up = []) (hdown : .granted ∉ l.down) :
    Step l { l with joined := false, up := [.usubr] }
  | left {rest : List Up} (h : l.up = .usubr :: rest) :
    Step l { l with member := false, up := rest }
  | delete (k : ℕ) (h : l.member = true → 0 < k) :
    Step l { l with member := false, down := l.down ++ List.replicate k .deleted }
  | granted {rest : List Down} (h : l.down = .granted :: rest) :
    Step l { l with joined := true, down := rest }
  | deleted {rest : List Down} (h : l.down = .deleted :: rest) :
    Step l { l with joined := false, down := rest }

/-- The owner knows what the node will have, unless the node is leaving. Then it has nothing, and is
granted nothing before the owner knows. -/
inductive Ok (l : Link) : Prop
  | settled (hup : ∀ u ∈ l.up, u = .subr) (hmember : l.member = l.view)
  | leaving (rest : List Up) (hup : l.up = .usubr :: rest) (hrest : ∀ u ∈ rest, u = .subr)
    (hjoined : l.joined = false) (hdown : .granted ∉ l.down)

theorem view_concat (d : Down) :
    ({ l with down := l.down ++ [d] } : Link).view = (d == .granted) := by
  unfold view
  rw [List.getLast?_concat]
  rfl

/-- A message of the owner comes. -/
theorem view_cons {rest : List Down} (d : Down) (h : l.down = d :: rest) :
    ({ l with joined := d == .granted, down := rest } : Link).view = l.view := by
  unfold view
  rw [h, List.getLast?_cons]
  cases rest.getLast? <;> rfl

theorem view_of_not_granted (hjoined : l.joined = false) (hdown : .granted ∉ l.down) :
    l.view = false := by
  unfold view
  cases hlast : l.down.getLast? with
  | none => exact hjoined
  | some d =>
    cases d with
    | granted => exact (hdown (List.mem_of_getLast? hlast)).elim
    | deleted => rfl

theorem view_delete {k : ℕ} (hk : 0 < k) :
    ({ l with down := l.down ++ List.replicate k .deleted } : Link).view = false := by
  obtain ⟨k, rfl⟩ := Nat.exists_eq_succ_of_ne_zero (Nat.pos_iff_ne_zero.mp hk)
  unfold view
  dsimp only
  rw [List.replicate_succ', ← List.append_assoc, List.getLast?_concat]
  rfl

theorem not_granted_append {k : ℕ} (hdown : .granted ∉ l.down) :
    Down.granted ∉ l.down ++ List.replicate k .deleted := by
  intro hmem
  rcases List.mem_append.mp hmem with hold | hnew
  · exact hdown hold
  · cases List.eq_of_mem_replicate hnew

theorem Step.ok (h : Step l l') (hok : l.Ok) : l'.Ok := by
  cases hok with
  | settled hup hmember =>
    cases h with
    | same => exact .settled hup hmember
    | call =>
      refine .settled (fun u hu => ?_) hmember
      rcases List.mem_append.mp hu with hold | hnew
      · exact hup u hold
      · exact List.mem_singleton.mp hnew
    | grant h =>
      refine .settled (fun u hu => hup u ?_) (view_concat .granted).symm
      rw [h]
      exact List.mem_cons_of_mem _ hu
    | missing h =>
      refine .settled (fun u hu => hup u ?_) hmember
      rw [h]
      exact List.mem_cons_of_mem _ hu
    | leave h hdown => exact .leaving [] rfl nofun rfl hdown
    | left h =>
      rw [h] at hup
      cases hup _ List.mem_cons_self
    | delete k hk =>
      refine .settled hup ?_
      rcases Nat.eq_zero_or_pos k with rfl | hpos
      · have hnot : l.member = false := Bool.eq_false_of_not_eq_true fun h => (hk h).ne rfl
        show false = ({ l with member := false, down := l.down ++ [] } : Link).view
        rw [List.append_nil, ← hnot]
        exact hmember
      · exact (view_delete hpos).symm
    | granted h => exact .settled hup (hmember.trans (view_cons .granted h).symm)
    | deleted h => exact .settled hup (hmember.trans (view_cons .deleted h).symm)
  | leaving rest hup hrest hjoined hdown =>
    cases h with
    | same => exact .leaving rest hup hrest hjoined hdown
    | call =>
      refine .leaving (rest ++ [.subr]) ?_ ?_ hjoined hdown
      · show l.up ++ [.subr] = _
        rw [hup, List.cons_append]
      · intro u hu
        rcases List.mem_append.mp hu with hold | hnew
        · exact hrest u hold
        · exact List.mem_singleton.mp hnew
    | grant h =>
      rw [hup] at h
      cases h
    | missing h =>
      rw [hup] at h
      cases h
    | leave h hdown' =>
      rw [hup] at h
      cases h
    | left h =>
      rw [hup] at h
      cases h
      exact .settled hrest (view_of_not_granted hjoined hdown).symm
    | delete k hk => exact .leaving rest hup hrest hjoined (not_granted_append hdown)
    | granted h =>
      rw [h] at hdown
      exact (hdown List.mem_cons_self).elim
    | deleted h =>
      refine .leaving rest hup hrest rfl fun hmem => hdown ?_
      rw [h]
      exact List.mem_cons_of_mem _ hmem

/-- Where nothing is on its way, both sides agree. -/
theorem Ok.agree (hok : l.Ok) (hup : l.up = []) (hdown : l.down = []) : l.member = l.joined := by
  cases hok with
  | settled _ hmember =>
    rw [hmember, view, hdown]
    rfl
  | leaving rest hup' =>
    rw [hup] at hup'
    cases hup'

end Link

/-! ## The links of the daemons -/

def Message.up (h : ℕ) (c : ℤ) (src : ℕ) : Message → Option Up
  | .subr c' _ => if c' = c ∧ src = h then some .subr else none
  | .usubr c' => if c' = c ∧ src = h then some .usubr else none
  | _ => none

def Message.down (h : ℕ) (c : ℤ) (dest : ℕ) : Message → Option Down
  | .reply c' _ missing => if (c' = c ∧ dest = h) ∧ missing = false then some .granted else none
  | .delr c' => if c' = c ∧ dest = h then some .deleted else none
  | _ => none

def Post.up (h : ℕ) (c : ℤ) (post : Post) : Option Up := post.message.up h c post.src

def Post.down (h : ℕ) (c : ℤ) (post : Post) : Option Down := post.message.down h c post.dest

/-- The owner of a channel has the node in the table of the channel. -/
def Multicastd.remote (d : Multicastd) (h : ℕ) (c : ℤ) : Bool :=
  (d.channelRemote c).any fun t => decide (h ∈ d.table t)

/-- The link of the node `h` for the channel `c` -/
def State.link (s : State) (h : ℕ) (c : ℤ) : Link where
  joined := ((s.node h).channel c).isSome
  member := (s.node (owner c)).remote h c
  up := s.posts.filterMap (Post.up h c)
  down := s.posts.filterMap (Post.down h c)

/-- A message goes to the owner, or comes from it. -/
def Message.Routed (src dest : ℕ) : Message → Prop
  | .subr c _ | .usubr c => src ≠ owner c ∧ dest = owner c
  | .reply c _ _ | .delr c => src = owner c ∧ dest ≠ owner c
  | _ => True

/-- Each channel has a table of its own, and a node that has joined a channel has subscribers. -/
structure Multicastd.Linked (h : ℕ) (d : Multicastd) : Prop where
  ok : d.Ok h
  table : ∀ c, ∀ t ∈ d.channelRemote c, t < d.tables.length
  own : ∀ c c', ∀ t ∈ d.channelRemote c, t ∈ d.channelRemote c' → c = c'
  filled : ∀ c, owner c ≠ h → d.channel c ≠ some []

structure Wired (s : State) : Prop where
  node : ∀ h, (s.node h).Linked h
  post : ∀ post ∈ s.posts, post.message.Routed post.src post.dest

structure Linked (s : State) : Prop extends Wired s where
  link : ∀ h c, h ≠ owner c → (s.link h c).Ok

variable {s s' : State} {h n k : ℕ} {c c' : ℤ} {d : Multicastd} {message : Message}

/-! ## The tables of a daemon -/

/-- What is not about channels and tables may change. -/
theorem Multicastd.Linked.keep (hd : d.Linked h) {d' : Multicastd} (hok : d'.Ok h)
    (hchannel : d'.channel = d.channel) (hremote : d'.channelRemote = d.channelRemote)
    (htables : d'.tables = d.tables) : d'.Linked h := by
  refine ⟨hok, ?_, ?_, ?_⟩
  · rw [hremote, htables]
    exact hd.table
  · rw [hremote]
    exact hd.own
  · rw [hchannel]
    exact hd.filled

/-- One channel changes, in which there is somebody. -/
theorem Multicastd.Linked.write (hd : d.Linked h) {d' : Multicastd} {group : Option (List ℕ)}
    (hok : d'.Ok h) (hchannel : d'.channel = update d.channel c group)
    (hremote : d'.channelRemote = d.channelRemote) (htables : d'.tables = d.tables)
    (hgroup : owner c ≠ h → group ≠ some []) : d'.Linked h := by
  refine ⟨hok, ?_, ?_, ?_⟩
  · rw [hremote, htables]
    exact hd.table
  · rw [hremote]
    exact hd.own
  · intro c'
    rw [hchannel]
    by_cases heq : c' = c
    · subst heq
      rw [update_self]
      exact hgroup
    · rw [update_of_ne heq]
      exact hd.filled c'

theorem Multicastd.Linked.remove (hd : d.Linked h) {d' : Multicastd} (hok : d'.Ok h)
    (hchannel : d'.channel = update d.channel c none)
    (hremote : d'.channelRemote = update d.channelRemote c none)
    (htables : d'.tables = d.tables) : d'.Linked h := by
  have hold : ∀ {c' t}, t ∈ d'.channelRemote c' → t ∈ d.channelRemote c' := by
    intro c' t ht
    rw [hremote] at ht
    by_cases heq : c' = c
    · subst heq
      rw [update_self] at ht
      cases ht
    · rw [update_of_ne heq] at ht
      exact ht
  refine ⟨hok, ?_, ?_, ?_⟩
  · intro c' t ht
    rw [htables]
    exact hd.table c' t (hold ht)
  · exact fun c₁ c₂ t h₁ h₂ => hd.own c₁ c₂ t (hold h₁) (hold h₂)
  · intro c'
    rw [hchannel]
    by_cases heq : c' = c
    · subst heq
      rw [update_self]
      exact fun _ => nofun
    · rw [update_of_ne heq]
      exact hd.filled c'

theorem Multicastd.Linked.modify (hd : d.Linked h) {t : ℕ} {f : List ℕ → List ℕ}
    (hok : ({ d with tables := d.tables.modify t f } : Multicastd).Ok h) :
    Multicastd.Linked h { d with tables := d.tables.modify t f } := by
  refine ⟨hok, ?_, hd.own, hd.filled⟩
  intro c t' ht'
  show t' < (d.tables.modify t f).length
  rw [List.length_modify]
  exact hd.table c t' ht'

theorem Multicastd.table_modify {t t' : ℕ} {f : List ℕ → List ℕ} (hlt : t < d.tables.length) :
    ({ d with tables := d.tables.modify t f } : Multicastd).table t' =
      if t' = t then f (d.table t) else d.table t' := by
  unfold Multicastd.table
  dsimp only
  rw [List.getD_eq_getElem?_getD, List.getD_eq_getElem?_getD, List.getD_eq_getElem?_getD]
  by_cases heq : t' = t
  · subst heq
    rw [if_pos rfl, List.getElem?_modify_eq, List.getElem?_eq_getElem hlt]
    rfl
  · rw [if_neg heq, List.getElem?_modify_ne f _ (Ne.symm heq)]

/-- The table of a channel changes. -/
theorem Multicastd.Linked.remote_modify (hd : d.Linked h) {t : ℕ} {f : List ℕ → List ℕ}
    (ht : d.channelRemote c = some t) :
    ({ d with tables := d.tables.modify t f } : Multicastd).remote n c' =
      if c' = c then decide (n ∈ f (d.table t)) else d.remote n c' := by
  have hlt := hd.table c t ht
  unfold Multicastd.remote
  show (d.channelRemote c').any _ = _
  by_cases heq : c' = c
  · subst heq
    rw [ht, if_pos rfl, Option.any_some, table_modify hlt, if_pos rfl]
  · rw [if_neg heq]
    cases hc' : d.channelRemote c' with
    | none => rfl
    | some t' =>
      have hne : t' ≠ t := by
        rintro rfl
        exact heq (hd.own c' c t' hc' ht)
      rw [Option.any_some, Option.any_some, table_modify hlt, if_neg hne]

theorem Multicastd.Linked.addRemote (hd : d.Linked h) (hne : n ≠ h) (hc : owner c = h) :
    (d.addRemote n c).Linked h := by
  have hok := hd.ok.addRemote hne hc
  unfold Multicastd.addRemote at hok ⊢
  cases hremote : d.channelRemote c with
  | some t =>
    rw [hremote] at hok
    exact hd.modify hok
  | none =>
    rw [hremote] at hok
    refine ⟨hok, ?_, ?_, hd.filled⟩
    · intro c' t ht
      show t < (d.tables ++ [[n]]).length
      rw [List.length_append, List.length_singleton]
      have ht : t ∈ update d.channelRemote c (some d.tables.length) c' := ht
      by_cases heq : c' = c
      · subst heq
        rw [update_self] at ht
        cases ht
        exact Nat.lt_succ_self _
      · rw [update_of_ne heq] at ht
        exact Nat.lt_succ_of_lt (hd.table c' t ht)
    · have hnew : ∀ c' t, t ∈ update d.channelRemote c (some d.tables.length) c' →
          (c' = c ∧ t = d.tables.length) ∨ (c' ≠ c ∧ t ∈ d.channelRemote c') := by
        intro c' t ht
        by_cases heq : c' = c
        · subst heq
          rw [update_self] at ht
          cases ht
          exact .inl ⟨rfl, rfl⟩
        · rw [update_of_ne heq] at ht
          exact .inr ⟨heq, ht⟩
      intro c₁ c₂ t h₁ h₂
      rcases hnew c₁ t h₁ with ⟨rfl, hlast⟩ | ⟨-, hold⟩
      · rcases hnew c₂ t h₂ with ⟨rfl, -⟩ | ⟨-, hold'⟩
        · rfl
        · have hlt := hd.table c₂ t hold'
          omega
      · rcases hnew c₂ t h₂ with ⟨rfl, hlast⟩ | ⟨-, hold'⟩
        · have hlt := hd.table c₁ t hold
          omega
        · exact hd.own c₁ c₂ t hold hold'

/-- Where a node is added to the table of a channel -/
theorem Multicastd.Linked.remote_addRemote (hd : d.Linked h) :
    (d.addRemote k c).remote n c' = if c' = c ∧ n = k then true else d.remote n c' := by
  unfold Multicastd.addRemote
  cases hremote : d.channelRemote c with
  | some t =>
    dsimp only
    rw [hd.remote_modify hremote]
    by_cases heq : c' = c
    · subst heq
      have hold : d.remote n c' = decide (n ∈ d.table t) := by
        unfold Multicastd.remote
        rw [hremote]
        rfl
      rw [if_pos rfl, hold]
      by_cases hmem : k ∈ d.table t
      · rw [if_pos hmem]
        split
        · rename_i hn
          rw [hn.2]
          exact decide_eq_true hmem
        · rfl
      · rw [if_neg hmem]
        split
        · rename_i hn
          rw [hn.2]
          exact decide_eq_true (List.mem_append_right _ (List.mem_singleton.mpr rfl))
        · rename_i hn
          simp [show n ≠ k from fun hnk => hn ⟨rfl, hnk⟩]
    · rw [if_neg heq, if_neg fun h => heq h.1]
  | none =>
    unfold Multicastd.remote
    dsimp only
    by_cases heq : c' = c
    · subst heq
      have htable : ({ d with
          channelRemote := update d.channelRemote c' (some d.tables.length)
          tables := d.tables ++ [[k]] } : Multicastd).table d.tables.length = [k] := by
        unfold Multicastd.table
        rw [List.getD_eq_getElem?_getD, List.getElem?_concat_length]
        rfl
      rw [update_self, Option.any_some, htable, hremote]
      by_cases hn : n = k
      · rw [if_pos ⟨rfl, hn⟩]
        exact decide_eq_true (List.mem_singleton.mpr hn)
      · rw [if_neg fun h => hn h.2]
        exact decide_eq_false fun hmem => hn (List.mem_singleton.mp hmem)
    · rw [update_of_ne heq, if_neg fun h => heq h.1]
      cases hc' : d.channelRemote c' with
      | none => rfl
      | some t =>
        have hlt := hd.table c' t hc'
        rw [Option.any_some, Option.any_some]
        unfold Multicastd.table
        rw [List.getD_eq_getElem?_getD, List.getD_eq_getElem?_getD, List.getElem?_append_left hlt]

/-- Where a node is removed from the table of a channel -/
theorem Multicastd.Linked.remote_usubr (hd : d.Linked h) :
    (d.usubr k c).remote n c' = if c' = c ∧ n = k then false else d.remote n c' := by
  unfold Multicastd.usubr
  cases hremote : d.channelRemote c with
  | none =>
    dsimp only
    split
    · rename_i heq
      unfold Multicastd.remote
      rw [heq.1, hremote]
      rfl
    · rfl
  | some t =>
    dsimp only
    rw [hd.remote_modify hremote]
    by_cases heq : c' = c
    · subst heq
      have hold : d.remote n c' = decide (n ∈ d.table t) := by
        unfold Multicastd.remote
        rw [hremote]
        rfl
      rw [if_pos rfl, hold]
      by_cases hn : n = k
      · rw [if_pos ⟨rfl, hn⟩]
        simp [hn]
      · rw [if_neg fun h => hn h.2]
        simp [hn]
    · rw [if_neg heq, if_neg fun h => heq h.1]

theorem Multicastd.Linked.usubr (hd : d.Linked h) : (d.usubr n c).Linked h := by
  have hok := hd.ok.usubr (n := n) (c := c)
  unfold Multicastd.usubr at hok ⊢
  cases hremote : d.channelRemote c with
  | none => exact hd
  | some t =>
    rw [hremote] at hok
    exact hd.modify hok

end SkynetEureka.Multicast
