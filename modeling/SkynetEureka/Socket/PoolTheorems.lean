import SkynetEureka.Socket.Pool

/-!
# A socket buffer is a queue of bytes

Each function on the nodes does to their bytes what the function of the same name in the module on
the read buffer does, and returns the nodes that have been read from the first one on. So a node is
free or in one buffer, and a block has been freed or is in one node.
-/

namespace SkynetEureka.Socket

open Lib

/-- The pool after nodes have been returned one by one -/
def Pool.returned (pool : Pool) (nodes : List Node) : Pool :=
  nodes.foldl Pool.returnFreeNode pool

/-- What a function leaves of a buffer and its pool: so many nodes have been returned. -/
structure Leaves (sb : SocketBuffer) (pool : Pool) (b' : Buffer) (sb' : SocketBuffer)
    (pool' : Pool) : Prop where
  toBuffer : sb'.toBuffer = b'
  returned : ∃ k, sb'.nodes = sb.nodes.drop k ∧ pool' = pool.returned (sb.nodes.take k)

section

variable {sb sb' : SocketBuffer} {pool pool' : Pool} {nodes : List Node} {b b' ret sep : Bytes}
  {offset offset' skip sz n : ℕ} {ms : List Bytes} {buf : Buffer}

/-! ## What the functions do -/

theorem Pool.returned_eq : pool.returned nodes =
    { pool with
      freeNodes := (nodes.map Node.addr).reverse ++ pool.freeNodes
      freed := pool.freed ++ nodes.map Node.block } := by
  induction nodes generalizing pool with
  | nil =>
    show pool = { pool with freeNodes := pool.freeNodes, freed := pool.freed ++ [] }
    rw [List.append_nil]
  | cons node nodes ih =>
    show (pool.returnFreeNode node).returned nodes = _
    rw [ih]
    unfold Pool.returnFreeNode
    rw [List.map_cons, List.reverse_cons, List.append_assoc, List.append_assoc]
    rfl

theorem popLoop_leaves
    (h : popLoop skip (nodes.map Node.msg) offset sz b = some (b', offset', ms)) :
    ∃ k, ms = (nodes.drop k).map Node.msg ∧
      SocketBuffer.popLoop skip nodes offset pool sz b =
        some (b', offset', nodes.drop k, pool.returned (nodes.take k)) := by
  induction nodes generalizing offset pool sz b with
  | nil => cases h
  | cons current rest ih =>
    rw [List.map_cons] at h
    unfold popLoop at h
    unfold SocketBuffer.popLoop
    dsimp only at h ⊢
    by_cases hfits : sz ≤ current.msg.length - offset
    · rw [if_pos hfits] at h ⊢
      by_cases hall : current.msg.length - offset = sz
      · rw [if_pos hall] at h ⊢
        cases h
        exact ⟨1, rfl, rfl⟩
      · rw [if_neg hall] at h ⊢
        cases h
        exact ⟨0, rfl, rfl⟩
    · rw [if_neg hfits] at h ⊢
      obtain ⟨k, hms, hloop⟩ := ih h
      exact ⟨k + 1, hms, hloop⟩

theorem SocketBuffer.popLstring_leaves {sz : ℤ}
    (h : sb.toBuffer.popLstring sz skip = some (ret, buf)) :
    ∃ sb' pool', sb.popLstring pool sz skip = some (ret, sb', pool') ∧
      Leaves sb pool buf sb' pool' := by
  obtain ⟨size, offset, nodes⟩ := sb
  unfold Buffer.popLstring toBuffer at h
  unfold popLstring
  cases nodes with
  | nil => cases h
  | cons current rest =>
    simp only [List.map_cons] at h
    dsimp only
    by_cases hlt : sz < current.msg.length - offset
    · rw [if_pos hlt] at h ⊢
      obtain ⟨r, hpush, heq⟩ := Option.bind_eq_some_iff.mp h
      cases heq
      refine ⟨⟨size, offset + sz.toNat, current :: rest⟩, pool, ?_, rfl, 0, rfl, rfl⟩
      rw [hpush]
      rfl
    · rw [if_neg hlt] at h ⊢
      by_cases hall : sz = current.msg.length - offset
      · rw [if_pos hall] at h ⊢
        obtain ⟨r, hpush, heq⟩ := Option.bind_eq_some_iff.mp h
        cases heq
        refine ⟨⟨size, 0, rest⟩, pool.returnFreeNode current, ?_, rfl, 1, rfl, rfl⟩
        rw [hpush]
        rfl
      · rw [if_neg hall] at h ⊢
        obtain ⟨⟨b', offset', ms⟩, hloop, heq⟩ := Option.bind_eq_some_iff.mp h
        cases heq
        obtain ⟨k, rfl, hloop'⟩ := @popLoop_leaves pool (current :: rest) _ _ _ _ _ _ _ hloop
        refine ⟨⟨size, offset', (current :: rest).drop k⟩,
          pool.returned ((current :: rest).take k), ?_, rfl, k, rfl, rfl⟩
        rw [hloop']
        rfl

theorem SocketBuffer.pop_leaves {n : ℤ} {r : Option Bytes} (h : sb.toBuffer.pop n = some (r, buf)) :
    ∃ sb' pool', sb.pop pool n = some (r, sb', pool') ∧ Leaves sb pool buf sb' pool' := by
  unfold Buffer.pop at h
  unfold pop
  dsimp only at h ⊢
  by_cases hnone : sb.toBuffer.size < toInt n ∨ toInt n = 0
  · rw [if_pos hnone] at h
    cases h
    exact ⟨sb, pool, if_pos hnone, rfl, 0, rfl, rfl⟩
  · rw [if_neg hnone] at h
    obtain ⟨⟨ret, b'⟩, hpop, heq⟩ := Option.bind_eq_some_iff.mp h
    cases heq
    obtain ⟨sb', pool', hpop', rfl, hreturned⟩ := @popLstring_leaves _ pool _ _ _ _ hpop
    refine ⟨{ sb' with size := toInt (sb'.size - toInt n) }, pool', ?_, rfl, hreturned⟩
    rw [if_neg (show ¬(sb.size < toInt n ∨ toInt n = 0) from hnone), hpop']
    rfl

theorem SocketBuffer.readline_leaves {r : Option Bytes}
    (h : sb.toBuffer.readline sep = some (r, buf)) :
    ∃ sb' pool', sb.readline pool sep = some (r, sb', pool') ∧ Leaves sb pool buf sb' pool' := by
  unfold Buffer.readline at h
  unfold readline
  obtain ⟨found, hsearch, h⟩ := Option.bind_eq_some_iff.mp h
  rw [hsearch, Option.bind_eq_bind, Option.bind_some]
  cases found with
  | none =>
    cases h
    exact ⟨sb, pool, rfl, rfl, 0, rfl, rfl⟩
  | some i =>
    obtain ⟨⟨ret, b'⟩, hpop, heq⟩ := Option.bind_eq_some_iff.mp h
    cases heq
    obtain ⟨sb', pool', hpop', rfl, hreturned⟩ := @popLstring_leaves _ pool _ _ _ _ hpop
    refine ⟨{ sb' with size := toInt (sb'.size - (i + sep.length)) }, pool', ?_, rfl, hreturned⟩
    dsimp only
    rw [hpop']
    rfl

theorem readallLoop_eq : SocketBuffer.readallLoop nodes offset pool b =
    (b ++ (match nodes.map Node.msg with
      | [] => []
      | current :: rest => current.drop offset ++ rest.flatten), pool.returned nodes) := by
  induction nodes generalizing offset pool b with
  | nil =>
    show (b, pool) = (b ++ [], pool)
    rw [List.append_nil]
  | cons current rest ih =>
    unfold SocketBuffer.readallLoop
    rw [ih, List.append_assoc]
    cases rest with
    | nil => rfl
    | cons node rest => rfl

theorem Buffer.readall_clear : buf.readall.2 = buf.clear := by
  unfold readall clear
  cases buf.nodes with
  | nil => rfl
  | cons node nodes => rfl

theorem SocketBuffer.emptied_leaves :
    Leaves sb pool sb.toBuffer.clear sb.emptied (pool.returned sb.nodes) := by
  obtain ⟨size, offset, nodes⟩ := sb
  cases nodes with
  | nil => exact ⟨rfl, 0, rfl, rfl⟩
  | cons node nodes =>
    refine ⟨rfl, nodes.length + 1, ?_, ?_⟩
    · exact (List.drop_length (l := node :: nodes)).symm
    · exact congrArg pool.returned (List.take_length (l := node :: nodes)).symm

theorem SocketBuffer.readall_leaves : (sb.readall pool).1 = sb.toBuffer.readall.1 ∧
    Leaves sb pool sb.toBuffer.readall.2 (sb.readall pool).2.1 (sb.readall pool).2.2 := by
  unfold readall
  rw [readallLoop_eq, Buffer.readall_clear, List.nil_append]
  refine ⟨?_, emptied_leaves⟩
  unfold Buffer.readall toBuffer
  dsimp only
  cases sb.nodes with
  | nil => rfl
  | cons node nodes => rfl

theorem SocketBuffer.size_push {msg : Bytes} :
    (sb.push pool msg).1.size = toInt (sb.size + msg.length) := rfl

theorem SocketBuffer.push_toBuffer {msg : Bytes} :
    (sb.push pool msg).1.toBuffer = sb.toBuffer.push msg := by
  show (⟨_, _, (sb.nodes ++ [_]).map Node.msg⟩ : Buffer) = ⟨_, _, sb.nodes.map Node.msg ++ [msg]⟩
  rw [List.map_append]
  rfl

end

/-! ## A queue -/

/-- What a function does to a queue of bytes -/
inductive Answers (q : Bytes) : Op → Option Bytes → Bytes → Prop
  | push (msg : SomeBytes) : Answers q (.push msg) none (q ++ msg)
  | pop (n : ℕ) (hpos : 0 < n) (hle : n ≤ q.length) :
      Answers q (.pop n) (some (q.take n)) (q.drop n)
  | popNone (n : ℕ) (hnone : n = 0 ∨ q.length < n) : Answers q (.pop n) none q
  | line (sep : SomeBytes) (line rest : Bytes) (hsplit : q = line ++ sep.val ++ rest)
      (hfirst : ∀ m < line.length, ¬sep.val <+: q.drop m) :
      Answers q (.readline sep) (some line) rest
  | noLine (sep : SomeBytes) (hnone : ¬sep.val <:+: q) : Answers q (.readline sep) none q
  | readall : Answers q .readall (some q) []
  | clear : Answers q .clear none []

/-- The bytes that can be read -/
def SocketBuffer.bytes (sb : SocketBuffer) : Bytes := sb.toBuffer.bytes

/-- The size, the count and the length of the separator fit an int. -/
def Op.Fits (q : Bytes) : Op → Prop
  | .push msg => q.length + msg.val.length < 2 ^ 31
  | .pop n => n < 2 ^ 31
  | .readline sep => sep.val.length < 2 ^ 31
  | .readall | .clear => True

instance Op.decidableFits (q : Bytes) : (op : Op) → Decidable (op.Fits q)
  | .push msg => inferInstanceAs (Decidable (q.length + msg.val.length < 2 ^ 31))
  | .pop n => inferInstanceAs (Decidable (n < 2 ^ 31))
  | .readline sep => inferInstanceAs (Decidable (sep.val.length < 2 ^ 31))
  | .readall | .clear => inferInstanceAs (Decidable True)

namespace Sockets

variable (s : Sockets)

def Fits : PoolAct → Prop
  | .newbuffer => True
  | .call i op => ∀ sb ∈ s.buffers[i]?, op.Fits sb.bytes

instance decidableFits : (a : PoolAct) → Decidable (s.Fits a)
  | .newbuffer => inferInstanceAs (Decidable True)
  | .call i op => inferInstanceAs (Decidable (∀ sb ∈ s.buffers[i]?, op.Fits sb.bytes))

/-- The nodes in buffers, by a field -/
def held (f : Node → ℕ) : List ℕ := s.buffers.flatMap fun sb => sb.nodes.map f

/-- The sizes are right, no node is empty or has been read to its end, a node is free or in one
buffer, and a block has been freed once or is in one node. -/
structure Sound : Prop where
  size : ∀ sb ∈ s.buffers, sb.size = sb.bytes.length
  unread : ∀ sb ∈ s.buffers, Shape (sb.nodes.map Node.msg) sb.offset
  nodes : (s.pool.freeNodes ++ s.held Node.addr).Perm (List.range s.pool.allocated)
  blocks : (s.pool.freed ++ s.held Node.block).Perm (List.range s.pool.pushed)

/-- The next step does to the bytes of a buffer what it does to a queue, and nothing to the other
buffers. -/
def Serves : PoolAct → Prop
  | .newbuffer => s.step .newbuffer = some { s with buffers := s.buffers ++ [.init] }
  | .call i op => ∀ sb ∈ s.buffers[i]?, ∃ ret s' sb', s.exec (.call i op) = some (ret, s') ∧
      s'.buffers = s.buffers.set i sb' ∧ Answers sb.bytes op ret sb'.bytes

end Sockets

section

variable {sb sb' : SocketBuffer} {pool pool' : Pool} {buf : Buffer} {op : Op}

/-- Each function answers as a queue does. -/
theorem SocketBuffer.exec_spec (h : sb.toBuffer.Ok) (hfits : op.Fits sb.bytes) :
    ∃ ret sb' pool', sb.exec pool op = some (ret, sb', pool') ∧ sb'.toBuffer.Ok ∧
      Answers sb.bytes op ret sb'.bytes ∧
        ((∃ msg, op = .push msg ∧ (sb', pool') = sb.push pool msg) ∨
          ∃ buf, Leaves sb pool buf sb' pool') := by
  cases op with
  | push msg =>
    obtain ⟨hok, hbytes⟩ := h.push msg.property hfits
    refine ⟨none, (sb.push pool msg).1, (sb.push pool msg).2, rfl, ?_, ?_, .inl ⟨msg, rfl, rfl⟩⟩
    · rw [push_toBuffer]
      exact hok
    · unfold bytes
      rw [push_toBuffer, hbytes]
      exact .push msg
  | pop n =>
    by_cases hnone : n = 0 ∨ sb.bytes.length < n
    · have hpop := h.pop_none hfits hnone
      obtain ⟨sb', pool', hexec, hleaves⟩ := @pop_leaves sb pool _ _ _ hpop
      have hbuffer := hleaves.toBuffer
      refine ⟨none, sb', pool', hexec, hbuffer ▸ h, ?_, .inr ⟨_, hleaves⟩⟩
      unfold bytes
      rw [hbuffer]
      exact .popNone n hnone
    · rw [not_or, not_lt] at hnone
      have hpos := Nat.pos_of_ne_zero hnone.1
      obtain ⟨buf, hpop, hok, hbytes⟩ := h.pop hpos hnone.2
      obtain ⟨sb', pool', hexec, hleaves⟩ := @pop_leaves sb pool _ _ _ hpop
      have hbuffer := hleaves.toBuffer
      refine ⟨_, sb', pool', hexec, hbuffer ▸ hok, ?_, .inr ⟨_, hleaves⟩⟩
      unfold bytes
      rw [hbuffer, hbytes]
      exact .pop n hpos hnone.2
  | readline sep =>
    obtain ⟨found, hsearch, -, hnone⟩ := h.search hfits
    rcases h.readline hfits with ⟨line, buf, -, hline, hok, hsplit, hfirst⟩ | ⟨hsearch', hline⟩
    · obtain ⟨sb', pool', hexec, hleaves⟩ := @readline_leaves sb pool _ _ _ hline
      have hbuffer := hleaves.toBuffer
      refine ⟨some line, sb', pool', hexec, hbuffer ▸ hok, ?_, .inr ⟨_, hleaves⟩⟩
      unfold bytes
      rw [hbuffer]
      exact .line sep line _ hsplit hfirst
    · obtain ⟨sb', pool', hexec, hleaves⟩ := @readline_leaves sb pool _ _ _ hline
      have hbuffer := hleaves.toBuffer
      refine ⟨none, sb', pool', hexec, hbuffer ▸ h, ?_, .inr ⟨_, hleaves⟩⟩
      unfold bytes
      rw [hbuffer]
      refine .noLine sep fun hinfix => ?_
      rw [hsearch'] at hsearch
      refine hnone (Option.some.inj hsearch).symm (fun hnil => ?_) hinfix
      rw [hnil, List.infix_nil] at hinfix
      exact sep.property hinfix
  | readall =>
    obtain ⟨hret, hleaves⟩ := @readall_leaves sb pool
    obtain ⟨hbytes, hok, hnil⟩ := h.readall
    have hbuffer := hleaves.toBuffer
    refine ⟨some (sb.readall pool).1, _, _, rfl, hbuffer ▸ hok, ?_, .inr ⟨_, hleaves⟩⟩
    show Answers _ _ _ (sb.readall pool).2.1.toBuffer.bytes
    rw [hbuffer, hnil, hret, hbytes]
    exact .readall
  | clear =>
    have hleaves := @emptied_leaves sb pool
    obtain ⟨-, hok, hnil⟩ := h.readall
    rw [Buffer.readall_clear] at hok hnil
    refine ⟨none, sb.emptied, pool.returned sb.nodes, rfl, hleaves.toBuffer ▸ hok, ?_,
      .inr ⟨_, hleaves⟩⟩
    unfold bytes
    rw [hleaves.toBuffer, hnil]
    exact .clear

end

/-! ## Every run -/

namespace Sockets

/-- What holds in every state -/
structure Inv (s : Sockets) : Prop where
  ok : ∀ sb ∈ s.buffers, sb.toBuffer.Ok
  nodes : (s.pool.freeNodes ++ s.held Node.addr).Perm (List.range s.pool.allocated)
  blocks : (s.pool.freed ++ s.held Node.block).Perm (List.range s.pool.pushed)

variable {s s' : Sockets} {sb sb' : SocketBuffer} {pool pool' : Pool} {buf : Buffer} {op : Op}
  {f : Node → ℕ} {i : ℕ} {l r : List SocketBuffer} {inUse : List ℕ}

theorem Inv.sound (h : s.Inv) : s.Sound :=
  ⟨fun sb hsb => (h.ok sb hsb).size, fun sb hsb => (h.ok sb hsb).shape, h.nodes, h.blocks⟩

theorem inv_init : init.Inv :=
  ⟨(fun _ h => by cases h), List.Perm.refl _, List.Perm.refl _⟩

theorem held_split (h : s.buffers = l ++ sb :: r) : s.held f =
    (l.flatMap fun sb => sb.nodes.map f) ++ (sb.nodes.map f ++
      r.flatMap fun sb => sb.nodes.map f) := by
  unfold Sockets.held
  rw [h, List.flatMap_append, List.flatMap_cons]

/-- A buffer with those before it and behind it -/
theorem exists_split (hget : s.buffers[i]? = some sb) : ∃ l r, s.buffers = l ++ sb :: r ∧
    ∀ sb', s.buffers.set i sb' = l ++ sb' :: r := by
  obtain ⟨hi, hsb⟩ := List.getElem?_eq_some_iff.mp hget
  refine ⟨s.buffers.take i, s.buffers.drop (i + 1), ?_, fun sb' => ?_⟩
  · rw [← hsb, ← List.drop_eq_getElem_cons hi, List.take_append_drop]
  · rw [List.set_eq_take_append_cons_drop, if_pos hi]

/-- The nodes at the front go from the buffer to the pool, and the rest stays. -/
theorem returned_perm (nodes : List Node) (k : ℕ) (free left right : List ℕ) :
    (((nodes.take k).map f).reverse ++ free ++ (left ++ ((nodes.drop k).map f ++ right))).Perm
      (free ++ (left ++ (nodes.map f ++ right))) := by
  have hsplit : nodes.map f = (nodes.take k).map f ++ (nodes.drop k).map f := by
    rw [← List.map_append, List.take_append_drop]
  rw [List.perm_iff_count, hsplit]
  intro x
  simp only [List.count_append, List.count_reverse]
  omega

/-- The buffers of the new state are as they should be. -/
theorem ok_set (h : s.Inv) (hok : sb'.toBuffer.Ok) :
    ∀ b ∈ s.buffers.set i sb', b.toBuffer.Ok := by
  intro b hb
  rcases List.mem_or_eq_of_mem_set hb with hold | rfl
  · exact h.ok b hold
  · exact hok

theorem Inv.leaves (h : s.Inv) (hget : s.buffers[i]? = some sb)
    (hleaves : Leaves sb s.pool buf sb' pool') (hok : sb'.toBuffer.Ok) :
    Inv ⟨s.buffers.set i sb', pool'⟩ := by
  obtain ⟨l, r, hsplit, hset⟩ := exists_split hget
  obtain ⟨k, hnodes, rfl⟩ := hleaves.returned
  rw [hset]
  have haddr := h.nodes
  have hblock := h.blocks
  rw [held_split hsplit] at haddr hblock
  rw [Pool.returned_eq]
  refine ⟨hset sb' ▸ ok_set h hok, ?_, ?_⟩
  · rw [@held_split _ sb' _ l r rfl, hnodes]
    exact (returned_perm sb.nodes k _ _ _).trans haddr
  · rw [@held_split _ sb' _ l r rfl, hnodes]
    refine List.Perm.trans ?_ ((returned_perm sb.nodes k _ _ _).trans hblock)
    -- the blocks are freed in order
    refine List.Perm.append_right _ (List.perm_append_comm.trans ?_)
    exact List.Perm.append_right _ (List.reverse_perm _).symm

/-- A node is taken out of the free ones, or is the first one of a new chunk. -/
theorem takeNode_perm (h : (pool.freeNodes ++ inUse).Perm (List.range pool.allocated)) :
    (pool.takeNode.1 :: (pool.takeNode.2.freeNodes ++ inUse)).Perm
      (List.range pool.takeNode.2.allocated) := by
  unfold Pool.takeNode
  cases hfree : pool.freeNodes with
  | cons a rest =>
    rw [hfree] at h
    exact h
  | nil =>
    rw [hfree] at h
    dsimp only
    have hpos : 0 < pool.chunkSize := by
      unfold Pool.chunkSize
      dsimp only
      split <;> rw [Nat.shiftLeft_eq] <;> positivity
    have hrange : List.range (pool.allocated + pool.chunkSize) = List.range pool.allocated ++
        pool.allocated :: List.range' (pool.allocated + 1) (pool.chunkSize - 1) := by
      obtain ⟨n, hn⟩ := Nat.exists_eq_add_of_lt hpos
      rw [Nat.zero_add] at hn
      rw [hn, Nat.add_sub_cancel, ← List.range'_succ, List.range_eq_range', List.range_eq_range',
        ← List.range'_append_1, Nat.zero_add]
    rw [hrange]
    exact (List.perm_append_comm.cons _).trans ((List.Perm.append_right _ h).cons _ |>.trans
      List.perm_middle.symm)

/-- The blocks are no matter when a node is taken. -/
theorem takeNode_blocks :
    pool.takeNode.2.pushed = pool.pushed ∧ pool.takeNode.2.freed = pool.freed := by
  unfold Pool.takeNode
  cases pool.freeNodes with
  | nil => exact ⟨rfl, rfl⟩
  | cons a rest => exact ⟨rfl, rfl⟩

/-- The node that is appended -/
theorem append_perm (free left right : List ℕ) (nodes : List Node) (node : Node) :
    (free ++ (left ++ ((nodes ++ [node]).map f ++ right))).Perm
      (f node :: (free ++ (left ++ (nodes.map f ++ right)))) := by
  rw [List.map_append, List.map_singleton, List.perm_iff_count]
  intro x
  simp only [List.count_append, List.count_cons, List.count_nil]
  omega

theorem Inv.push {msg : SomeBytes} (h : s.Inv) (hget : s.buffers[i]? = some sb)
    (hok : (sb.push s.pool msg).1.toBuffer.Ok) :
    Inv ⟨s.buffers.set i (sb.push s.pool msg).1, (sb.push s.pool msg).2⟩ := by
  obtain ⟨l, r, hsplit, hset⟩ := exists_split hget
  obtain ⟨hpushed, hfreed⟩ := @takeNode_blocks s.pool
  have haddr := takeNode_perm h.nodes
  have hblock := h.blocks
  rw [held_split hsplit] at haddr hblock
  have hnodes : (sb.push s.pool msg).1.nodes =
      sb.nodes ++ [⟨s.pool.takeNode.1, s.pool.takeNode.2.pushed, msg⟩] := rfl
  refine ⟨ok_set h hok, ?_, ?_⟩
  · rw [hset, @held_split _ (sb.push s.pool msg).1 _ l r rfl, hnodes]
    exact (append_perm _ _ _ _ _).trans haddr
  · rw [hset, @held_split _ (sb.push s.pool msg).1 _ l r rfl, hnodes]
    show (s.pool.takeNode.2.freed ++ _).Perm (List.range (s.pool.takeNode.2.pushed + 1))
    rw [hfreed, List.range_succ]
    refine (append_perm _ _ _ _ _).trans ?_
    rw [hpushed]
    exact (hblock.cons _).trans (List.perm_append_singleton _ _).symm

theorem held_newbuffer : held { s with buffers := s.buffers ++ [.init] } f = s.held f := by
  unfold held
  rw [List.flatMap_append]
  exact List.append_nil _

/-- A call leaves the first nodes to the pool, or takes a node. -/
theorem Inv.call {ret : Option Bytes} (h : s.Inv) (hget : s.buffers[i]? = some sb)
    (hok : sb'.toBuffer.Ok)
    (hleft : (∃ msg, op = .push msg ∧ (sb', pool') = sb.push s.pool msg) ∨
      ∃ buf, Leaves sb s.pool buf sb' pool')
    (hexec : sb.exec s.pool op = some (ret, sb', pool')) :
    s.exec (.call i op) = some (ret, ⟨s.buffers.set i sb', pool'⟩) ∧
      Inv ⟨s.buffers.set i sb', pool'⟩ := by
  constructor
  · unfold Sockets.exec
    dsimp only
    rw [hget]
    dsimp only
    rw [hexec]
    rfl
  · rcases hleft with ⟨msg, rfl, hpush⟩ | ⟨buf, hleaves⟩
    · cases hpush
      exact h.push hget hok
    · exact h.leaves hget hleaves hok

/-- A step answers as the queues do, and keeps the invariant. -/
theorem Inv.serves (h : s.Inv) {a : PoolAct} (hfits : s.Fits a) :
    s.Serves a ∧ ∃ s', s.step a = some s' ∧ s'.Inv := by
  cases a with
  | newbuffer =>
    refine ⟨rfl, _, rfl, ?_, ?_, ?_⟩
    · intro b hb
      rcases List.mem_append.mp hb with hold | hnew
      · exact h.ok b hold
      · rw [List.mem_singleton.mp hnew]
        exact Buffer.init_ok
    · rw [held_newbuffer]
      exact h.nodes
    · rw [held_newbuffer]
      exact h.blocks
  | call i op =>
    cases hget : s.buffers[i]? with
    | none =>
      have hexec : s.exec (.call i op) = some (none, s) := by
        unfold Sockets.exec
        dsimp only
        rw [hget]
      refine ⟨fun sb hsb => ?_, s, ?_, h⟩
      · rw [hget] at hsb
        cases hsb
      · unfold Sockets.step
        rw [hexec]
        rfl
    | some sb =>
      have hok := h.ok sb (List.mem_of_getElem? hget)
      obtain ⟨ret, sb', pool', hexec, hok', hanswers, hleft⟩ :=
        @SocketBuffer.exec_spec sb s.pool op hok (hfits sb hget)
      obtain ⟨hcall, hinv⟩ := h.call hget hok' hleft hexec
      refine ⟨fun b hb => ?_, _, ?_, hinv⟩
      · obtain rfl := Option.some.inj (hget.symm.trans hb)
        exact ⟨ret, _, sb', hcall, rfl, hanswers⟩
      · unfold Sockets.step
        rw [hcall]
        rfl

end Sockets

/-- **The buffers are queues of bytes**, in every run in which the sizes, the counts and the lengths
of separators fit an int. -/
theorem buffers_are_queues (acts : List PoolAct) (a : PoolAct) (s : Sockets)
    (h : run Sockets.step .init acts = some s)
    (hfits : Guarded Sockets.step Sockets.Fits .init (acts ++ [a])) : s.Sound ∧ s.Serves a := by
  obtain ⟨hbefore, hlast⟩ := guarded_append.mp hfits
  have hinv : s.Inv := by
    refine run_invariant ?_ Sockets.inv_init hbefore h
    intro s a s' hinv hok hstep
    obtain ⟨-, s'', hstep', hinv'⟩ := hinv.serves hok
    obtain rfl := Option.some.inj (hstep.symm.trans hstep')
    exact hinv'
  exact ⟨hinv.sound, (hinv.serves (hlast s h).1).1⟩

/-- Three blocks, of which the separator straddles two -/
def straddling : List PoolAct :=
  [.newbuffer, .newbuffer, .call 0 (.push ⟨[65, 66, 13], nofun⟩), .call 1 (.push ⟨[67], nofun⟩),
    .call 0 (.push ⟨[10, 68], nofun⟩)]

theorem buffers_are_queues_straddling : ∃ s, run Sockets.step .init straddling = some s ∧
    (s.exec (.call 0 (.readline ⟨[13, 10], nofun⟩))).map Prod.fst = some (some [65, 66]) ∧
      s.Sound ∧ s.Serves (.call 0 (.readline ⟨[13, 10], nofun⟩)) :=
  ⟨_, rfl, by decide, buffers_are_queues straddling _ _ rfl (by decide)⟩

/-- Two blocks of 1 GiB are too much for an int. -/
theorem size_two_blocks {msg : SomeBytes} (hlength : msg.val.length = 2 ^ 30) :
    ∃ s sb, run Sockets.step .init [.newbuffer, .call 0 (.push msg), .call 0 (.push msg)] = some s ∧
      sb ∈ s.buffers ∧ sb.size = -(2 ^ 31) := by
  let first := SocketBuffer.init.push .init msg
  let second := first.1.push first.2 msg
  refine ⟨⟨[second.1], second.2⟩, second.1, rfl, List.mem_cons_self, ?_⟩
  have hinit : SocketBuffer.init.size = 0 := rfl
  have hint : toInt ((2 ^ 30 : ℕ) : ℤ) = (2 ^ 30 : ℕ) := toInt_eq (by norm_num)
  rw [SocketBuffer.size_push, SocketBuffer.size_push, hlength, hinit, zero_add, hint]
  unfold toInt
  norm_num [Int.bmod]

theorem size_overflows : ¬∀ (acts : List PoolAct) (s : Sockets),
    run Sockets.step .init acts = some s → s.Sound := by
  intro hclaim
  have hexists : ∀ n, ∃ b : Bytes, b.length = n :=
    fun n => ⟨List.replicate n 0, List.length_replicate⟩
  obtain ⟨b, hlength⟩ := hexists (2 ^ 30)
  have hne : b ≠ [] := by
    rintro rfl
    cases hlength
  obtain ⟨s, sb, hrun, hmem, hsize⟩ := @size_two_blocks ⟨b, hne⟩ hlength
  have hsound := (hclaim _ s hrun).size sb hmem
  omega

end SkynetEureka.Socket
