import SkynetEureka.ServiceGate.Dispatch

/-!
# The gate forwards whole packages

`Inv` holds in every state of the gate: the memory is as `World` says, a socket without a connection
has no messages, and a connection that has always had a receiver has forwarded the packages that are
complete and waits for the rest of the next one.
-/

namespace SkynetEureka.ServiceGate

open Lib Function

/-- A connection has its messages, and has done what it could. -/
structure Connection.Ok (headerSize : ℕ) (mem : Memory) (l : List ℕ) (c : Connection) : Prop where
  buffer : ∃ bytes, Stores mem c.buffer l bytes ∧ c.buffer.size = bytes.length ∧
    ∀ packages later, c.served → c.received ++ later = stream headerSize packages →
      (∀ body ∈ packages, body.length < limit headerSize) →
        c.Follows headerSize packages bytes ∧ Waits headerSize c.buffer.header bytes

/-- The messages of all sockets -/
structure Inv (g : Gate) (free : List ℕ) (nodes : ℕ → List ℕ) : Prop where
  world : World g.mp free nodes
  closed : ∀ id, g.connection id = none → nodes id = []
  ok : ∀ id c, g.connection id = some c → c.Ok g.headerSize g.mp (nodes id)

section

variable {g : Gate} {mem : Memory} {free : List ℕ} {nodes : ℕ → List ℕ} {id headerSize : ℕ}
  {c : Connection} {bytes : List UInt8}

theorem inv_init (watchdog : ℕ) : Inv (.init headerSize watchdog) [] fun _ => [] := by
  refine ⟨⟨rfl, .nil, ?_, fun _ => .nil, ?_, ?_, ?_, ?_, ?_, ?_⟩, fun _ _ => rfl, ?_⟩
  · exact fun _ h => by cases h
  · exact fun _ _ h => by cases h
  · exact fun _ _ h => by cases h
  · exact fun _ _ _ _ h => by cases h
  · exact fun _ _ h => by cases h
  · exact fun _ _ h => by cases h
  · exact fun _ h => by cases h
  · exact fun _ _ h => by cases h

/-- The other sockets keep their connections. -/
theorem Connection.Ok.frame {mem' : Memory} (hok : c.Ok headerSize mem (nodes id))
    (hw : World mem free nodes)
    (hsame : ∀ a ∈ nodes id, mem'.message a = mem.message a)
    (hblocks : ∀ (b : ℕ) block, mem.blocks[b]? = some block → mem'.blocks[b]? = some block) :
    c.Ok headerSize mem' (nodes id) := by
  obtain ⟨bytes, hstores, hlength, hfollows⟩ := hok.buffer
  exact ⟨bytes, hstores.frame hw hsame hblocks, hlength, hfollows⟩

/-- The connection of a socket is written. -/
theorem Inv.set {mem' : Memory} {l : List ℕ} {free' : List ℕ} {o : Option Connection}
    (h : Inv g free nodes) (hworld : World mem' free' (update nodes id l))
    (hframe : Frame g.mp mem' nodes id) (hclosed : o = none → l = [])
    (hok : ∀ c ∈ o, c.Ok g.headerSize mem' l) :
    Inv (g.set id o mem') free' (update nodes id l) := by
  refine ⟨hworld, ?_, ?_⟩
  · intro id' hnone
    unfold Gate.set at hnone
    dsimp only at hnone
    by_cases heq : id' = id
    · subst heq
      rw [update_self] at hnone ⊢
      exact hclosed hnone
    · rw [update_of_ne heq] at hnone ⊢
      exact h.closed id' hnone
  · intro id' c hget
    unfold Gate.set at hget
    dsimp only at hget
    by_cases heq : id' = id
    · subst heq
      rw [update_self] at hget ⊢
      exact hok c hget
    · rw [update_of_ne heq] at hget ⊢
      exact (h.ok id' c hget).frame h.world (hframe.message id' heq) hframe.blocks

theorem ok_init (hpos : 0 < headerSize) :
    Connection.Ok headerSize mem [] ⟨0, 0, .init, [], [], true, 0⟩ := by
  refine ⟨[], ⟨rfl, rfl, ?_, fun _ => rfl, rfl⟩, rfl, ?_⟩
  · intro a ha
    cases ha
  · intro packages _ _ _ _
    exact ⟨follows_nil, hpos⟩

/-- A block for nobody is freed at once. -/
theorem World.drop (hw : World mem free nodes) (id : ℕ) (data : List UInt8) :
    World
      { mem with
        blocks := mem.blocks ++ [⟨id, data⟩]
        freed := mem.freed ++ [mem.blocks.length] } free nodes := by
  have hlength : (mem.blocks ++ [(⟨id, data⟩ : Block)]).length = mem.blocks.length + 1 :=
    List.length_append
  refine ⟨hw.freelist, hw.free_nodup, hw.free_lt, hw.nodup, hw.lt, hw.apart, hw.distinct,
    ?_, ?_, ?_⟩
  · intro id' a ha
    obtain ⟨b, block, hbuffer, hblock, hrest⟩ := hw.block id' a ha
    exact ⟨b, block, hbuffer, insert_blocks a id data hblock, hrest⟩
  · intro b block hget
    show (mem.freed ++ [mem.blocks.length]).count b + (mem.held _).count b = 1
    rw [List.count_append]
    by_cases hb : b = mem.blocks.length
    · subst hb
      rw [List.count_singleton_self, List.count_eq_zero.mpr (hw.not_held _),
        List.count_eq_zero.mpr fun hmem => (hw.freed_lt _ hmem).false]
    · have hlt := (List.getElem?_eq_some_iff.mp hget).1
      have hold : mem.blocks[b]? = some block := by
        rw [← hget]
        exact (List.getElem?_append_left (by dsimp only at hlt; omega)).symm
      rw [List.count_singleton, if_neg (by simpa using fun h => hb h.symm)]
      exact hw.once b block hold
  · intro b hb
    show b < (mem.blocks ++ _).length
    rw [hlength]
    rcases List.mem_append.mp hb with hold | hnew
    · exact (hw.freed_lt b hold).trans (Nat.lt_succ_self _)
    · rw [List.mem_singleton.mp hnew]
      exact Nat.lt_succ_self _

/-- The buffer of a connection -/
theorem Inv.holds (h : Inv g free nodes) (hget : g.connection id = some c) :
    ∃ bytes, Holds g.mp nodes id c.buffer bytes ∧ ∀ packages later, c.served →
      c.received ++ later = stream g.headerSize packages →
        (∀ body ∈ packages, body.length < limit g.headerSize) →
          c.Follows g.headerSize packages bytes := by
  obtain ⟨bytes, hstores, hlength, hfollows⟩ := (h.ok id c hget).buffer
  refine ⟨bytes, ⟨free, nodes id, ?_, hstores, hlength⟩, ?_⟩
  · rw [update_eq_self]
    exact h.world
  · exact fun packages later hserved hstream hlimit =>
      (hfollows packages later hserved hstream hlimit).1

theorem Inv.accept (hpos : 0 < g.headerSize) (h : Inv g free nodes) (id : ℕ) :
    ∃ g', g.step (.accept id) = some g' ∧ g'.headerSize = g.headerSize ∧
      ∃ free' nodes', Inv g' free' nodes' := by
  unfold Gate.step
  dsimp only
  cases hget : g.connection id with
  | some c => exact ⟨g, rfl, rfl, free, nodes, h⟩
  | none =>
    dsimp only
    by_cases hzero : id = 0
    · rw [if_pos hzero]
      exact ⟨g, rfl, rfl, free, nodes, h⟩
    · rw [if_neg hzero]
      have hworld : World g.mp free (update nodes id []) := by
        rw [← h.closed id hget, update_eq_self]
        exact h.world
      refine ⟨_, rfl, rfl, free, _, h.set hworld .refl (fun _ => rfl) ?_⟩
      intro c hc
      cases hc
      exact ok_init hpos

theorem Inv.data (hsize : g.headerSize = 2 ∨ g.headerSize = 4) (h : Inv g free nodes) (id : ℕ)
    (data : List UInt8) :
    ∃ g', g.step (.data id data) = some g' ∧ g'.headerSize = g.headerSize ∧
      ∃ free' nodes', Inv g' free' nodes' := by
  unfold Gate.step
  dsimp only
  by_cases hne : data = []
  · rw [if_pos hne]
    exact ⟨g, rfl, rfl, free, nodes, h⟩
  rw [if_neg hne]
  cases hget : g.connection id with
  | none =>
    refine ⟨_, rfl, rfl, free, nodes, h.world.drop id data, h.closed, fun id' c hget' => ?_⟩
    exact (h.ok id' c hget').frame h.world (fun _ _ => rfl)
      fun b block hblock => insert_blocks 0 id data hblock
  | some c =>
    obtain ⟨bytes, hholds, hfollows⟩ := h.holds hget
    obtain ⟨mem', c', hdispatch, ⟨bytes', ⟨free', l', hworld, hstores, hlength⟩, hrest⟩, hframe,
      hreceived, hserved⟩ := dispatchMessage_spec hsize hholds hne
    dsimp only
    rw [hdispatch, Option.bind_eq_bind, Option.bind_some]
    refine ⟨_, rfl, rfl, free', _, h.set hworld hframe (fun hnone => by cases hnone) ?_⟩
    intro c'' hc
    obtain rfl := Option.some.inj hc
    refine ⟨bytes', hstores, hlength, ?_⟩
    intro packages later hserved' hstream hlimit
    refine hrest packages later hserved' hstream hlimit ?_
    refine hfollows packages (data ++ later) ?_ ?_ hlimit
    · rw [hserved, Bool.and_eq_true] at hserved'
      exact hserved'.1
    · rw [hreceived, List.append_assoc] at hstream
      exact hstream

theorem Inv.close (h : Inv g free nodes) (id : ℕ) :
    ∃ g', g.step (.close id) = some g' ∧ g'.headerSize = g.headerSize ∧
      ∃ free' nodes', Inv g' free' nodes' := by
  unfold Gate.step
  dsimp only
  cases hget : g.connection id with
  | none => exact ⟨g, rfl, rfl, free, nodes, h⟩
  | some c =>
    obtain ⟨bytes, hholds, -⟩ := h.holds hget
    obtain ⟨mem', hclear, ⟨free', l', hworld, hstores, -⟩, hframe⟩ := clear_spec hholds
    dsimp only
    rw [hclear, Option.bind_eq_bind, Option.bind_some]
    refine ⟨_, rfl, rfl, free', _, h.set hworld hframe (fun _ => ?_) ?_⟩
    · exact Linked.eq_nil hstores.linked
    · intro c hc
      cases hc

theorem Inv.forward (h : Inv g free nodes) (id agent client : ℕ) :
    ∃ g', g.step (.forward id agent client) = some g' ∧ g'.headerSize = g.headerSize ∧
      ∃ free' nodes', Inv g' free' nodes' := by
  unfold Gate.step
  dsimp only
  refine ⟨_, rfl, rfl, free, nodes, h.world, ?_, ?_⟩
  · intro id' hnone
    dsimp only at hnone
    by_cases heq : id' = id
    · subst heq
      rw [update_self, Option.map_eq_none_iff] at hnone
      exact h.closed id' hnone
    · rw [update_of_ne heq] at hnone
      exact h.closed id' hnone
  · intro id' c hget
    dsimp only at hget
    by_cases heq : id' = id
    · subst heq
      rw [update_self, Option.map_eq_some_iff] at hget
      obtain ⟨c', hget', rfl⟩ := hget
      exact ⟨(h.ok id' c' hget').buffer⟩
    · rw [update_of_ne heq] at hget
      exact h.ok id' c hget

theorem Inv.step (hsize : g.headerSize = 2 ∨ g.headerSize = 4) (h : Inv g free nodes)
    (a : Action) :
    ∃ g', g.step a = some g' ∧ g'.headerSize = g.headerSize ∧
      ∃ free' nodes', Inv g' free' nodes' := by
  cases a with
  | accept id => exact h.accept (by omega) id
  | data id bytes => exact h.data hsize id bytes
  | close id => exact h.close id
  | forward id agent client => exact h.forward id agent client
  | broker address => exact ⟨_, rfl, rfl, free, nodes, h.world, h.closed, h.ok⟩

/-- No step fails. -/
theorem Inv.run (hsize : g.headerSize = 2 ∨ g.headerSize = 4) (h : Inv g free nodes)
    (actions : List Action) :
    ∃ g', run Gate.step g actions = some g' ∧ g'.headerSize = g.headerSize ∧
      ∃ free' nodes', Inv g' free' nodes' := by
  induction actions generalizing g free nodes with
  | nil => exact ⟨g, rfl, rfl, free, nodes, h⟩
  | cons a actions ih =>
    obtain ⟨g₁, hstep, hheader, free₁, nodes₁, h₁⟩ := h.step hsize a
    obtain ⟨g', hrun, hheader', hinv⟩ := ih (hheader ▸ hsize) h₁
    refine ⟨g', ?_, hheader'.trans hheader, hinv⟩
    rw [run_cons, hstep]
    exact hrun

/-- Once: a block has been freed, or a message of its socket holds it. -/
theorem Inv.freed (h : Inv g free nodes) {b : ℕ} {block : Block}
    (hget : g.mp.blocks[b]? = some block) (hnodes : nodes block.socket = []) :
    g.mp.freed.count b = 1 := by
  have honce := h.world.once b block hget
  rw [hnodes] at honce
  exact honce

end

end SkynetEureka.ServiceGate
