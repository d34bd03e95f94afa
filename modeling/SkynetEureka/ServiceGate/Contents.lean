import SkynetEureka.ServiceGate.Forwarding

/-!
# The steps of the gate as bytes

`Gate.framed` reads the bytes of a connection off the messages in its buffer. `Inv.moves` says all
that a step of the gate can do to them.
-/

namespace SkynetEureka.ServiceGate

open Lib Function

/-- The bytes of a list of messages, of at most so many -/
def Memory.listed (mem : Memory) : ℕ → Option ℕ → List UInt8
  | 0, _ => []
  | _ + 1, none => []
  | n + 1, some a => mem.data a ++ mem.listed n (mem.next a)

/-- What has not been read of a buffer: each of its messages has a byte at least. -/
def Databuffer.contents (db : Databuffer) (mem : Memory) : List UInt8 :=
  (mem.listed db.size db.head).drop db.offset

/-- The bytes of a connection -/
def Gate.framed (g : Gate) (id : ℕ) : Option Framed :=
  (g.connection id).map fun c => c.framed (c.buffer.contents g.mp)

/-- What a step does to the bytes of a connection. -/
inductive Gate.Moves (g : Gate) (id : ℕ) (f' : Framed) : Action → Prop
  | same (a : Action) (h : g.framed id = some f')
      (hnil : ∀ bytes, a = .data id bytes → bytes = []) : Moves g id f' a
  | accept (h : f' = ⟨0, 0, 0, [], [], [], 0⟩) : Moves g id f' (.accept id)
  | data (bytes : List UInt8) (c : Connection) (h : g.connection id = some c)
      (hdrains : ((c.framed (c.buffer.contents g.mp)).receive bytes).Drains g.headerSize
        (g.receiver id c) f') : Moves g id f' (.data id bytes)
  | forward (agent client : ℕ) (f : Framed) (h : g.framed id = some f)
      (hset : f' = { f with agent := agent, client := client }) :
      Moves g id f' (.forward id agent client)

section

variable {g g' : Gate} {mem mem' : Memory} {free l : List ℕ} {nodes : ℕ → List ℕ} {id n : ℕ}
  {c : Connection} {db : Databuffer} {bytes : List UInt8} {head : Option ℕ} {f' : Framed}

theorem listed_eq (hlinked : Linked mem.next head l) (hle : l.length ≤ n) :
    mem.listed n head = l.flatMap mem.data := by
  induction l generalizing head n with
  | nil =>
    have hhead : head = none := hlinked
    rw [hhead]
    cases n <;> rfl
  | cons a l ih =>
    obtain ⟨hhead, hrest⟩ := hlinked
    cases n with
    | zero => exact absurd hle (Nat.not_succ_le_zero _)
    | succ n =>
      rw [hhead, List.flatMap_cons, ← ih hrest (Nat.le_of_succ_le_succ hle)]
      rfl

theorem Stores.contents (hs : Stores mem db l bytes) (hle : l.length ≤ db.size) :
    db.contents mem = bytes := by
  unfold Databuffer.contents
  rw [listed_eq hs.linked hle, hs.bytes]

theorem Holds.contents (h : Holds mem nodes id db bytes) : db.contents mem = bytes := by
  obtain ⟨free, l, hw, hs, hsize⟩ := h
  refine hs.contents ?_
  have hs' : Stores mem db (update nodes id l id) bytes := by
    rw [update_self]
    exact hs
  have hle := hs'.length_le hw
  rw [update_self] at hle
  omega

/-- The connection of another socket has the bytes that it had. -/
theorem Inv.contents_frame (h : Inv g free nodes) (hget : g.connection id = some c)
    (hsame : ∀ a ∈ nodes id, mem'.message a = g.mp.message a)
    (hblocks : ∀ (b : ℕ) block, g.mp.blocks[b]? = some block → mem'.blocks[b]? = some block) :
    c.buffer.contents mem' = c.buffer.contents g.mp := by
  obtain ⟨bytes, hstores, hlength, -⟩ := (h.ok id c hget).buffer
  have hle : (nodes id).length ≤ c.buffer.size := by
    rw [hlength]
    exact hstores.length_le h.world
  rw [(hstores.frame h.world hsame hblocks).contents hle, hstores.contents hle]

/-- The connection of a socket is written, and another one is looked at. -/
theorem Inv.framed_set {o : Option Connection} {id' : ℕ} (h : Inv g free nodes)
    (hframe : Frame g.mp mem' nodes id) (hne : id' ≠ id) :
    (g.set id o mem').framed id' = g.framed id' := by
  unfold Gate.framed Gate.set
  dsimp only
  rw [update_of_ne hne]
  cases hget : g.connection id' with
  | none => rfl
  | some c =>
    rw [Option.map_some, Option.map_some,
      h.contents_frame hget (hframe.message id' hne) hframe.blocks]

theorem framed_of_get (hget : g.connection id = some c) :
    g.framed id = some (c.framed (c.buffer.contents g.mp)) := by
  unfold Gate.framed
  rw [hget, Option.map_some]

theorem framed_set_self {o : Option Connection} :
    (g.set id o mem').framed id = o.map fun c => c.framed (c.buffer.contents mem') := by
  unfold Gate.framed Gate.set
  dsimp only
  rw [update_self]

/-- All that a step does to the bytes of a connection -/
theorem Inv.moves (hpos : 0 < g.headerSize) (h : Inv g free nodes) {a : Action}
    (hstep : g.step a = some g') (hf : g'.framed id = some f') : g.Moves id f' a := by
  cases a with
  | accept id' =>
    unfold Gate.step at hstep
    dsimp only at hstep
    cases hget : g.connection id' with
    | some c =>
      rw [hget] at hstep
      obtain rfl := Option.some.inj hstep
      exact .same _ hf fun _ h => by cases h
    | none =>
      rw [hget] at hstep
      dsimp only at hstep
      obtain rfl := Option.some.inj hstep
      by_cases hzero : id' = 0
      · rw [if_pos hzero] at hf
        exact .same _ hf fun _ h => by cases h
      · rw [if_neg hzero] at hf
        by_cases heq : id = id'
        · subst heq
          rw [framed_set_self] at hf
          exact .accept (Option.some.inj hf).symm
        · have hframe : Frame g.mp g.mp nodes id' := .refl
          rw [h.framed_set hframe heq] at hf
          exact .same _ hf fun _ h => by cases h
  | data id' data =>
    unfold Gate.step at hstep
    dsimp only at hstep
    by_cases hne : data = []
    · rw [if_pos hne] at hstep
      obtain rfl := Option.some.inj hstep
      refine .same _ hf fun bytes h => ?_
      cases h
      exact hne
    rw [if_neg hne] at hstep
    cases hget : g.connection id' with
    | none =>
      -- the block is freed at once
      rw [hget] at hstep
      obtain rfl := Option.some.inj hstep
      refine .same _ ?_ ?_
      swap
      · intro bytes h
        cases h
        unfold Gate.framed at hf
        dsimp only at hf
        rw [hget] at hf
        cases hf
      rw [← hf]
      unfold Gate.framed
      dsimp only
      cases hget' : g.connection id with
      | none => rfl
      | some c =>
        have hsame := @Inv.contents_frame g
          { g.mp with
            blocks := g.mp.blocks ++ [⟨id', data⟩]
            freed := g.mp.freed ++ [g.mp.blocks.length] } _ _ _ _ h hget' (fun _ _ => rfl)
          fun b block hblock => insert_blocks 0 id' data hblock
        rw [Option.map_some, Option.map_some, hsame]
    | some c =>
      obtain ⟨bytes, hholds, -⟩ := h.holds hget
      obtain ⟨mem', c', bytes', hdispatch, hholds', hdrains, hframe, -⟩ :=
        dispatchMessage_framed hpos hholds hne
      rw [hget] at hstep
      dsimp only at hstep
      rw [hdispatch] at hstep
      obtain rfl := Option.some.inj hstep
      by_cases heq : id = id'
      · subst heq
        rw [framed_set_self, Option.map_some, hholds'.contents] at hf
        obtain rfl := Option.some.inj hf
        refine .data data c hget ?_
        rw [hholds.contents]
        exact hdrains
      · rw [h.framed_set hframe heq] at hf
        refine .same _ hf fun bytes h => ?_
        cases h
        exact absurd rfl heq
  | close id' =>
    unfold Gate.step at hstep
    dsimp only at hstep
    cases hget : g.connection id' with
    | none =>
      rw [hget] at hstep
      obtain rfl := Option.some.inj hstep
      exact .same _ hf fun _ h => by cases h
    | some c =>
      obtain ⟨bytes, hholds, -⟩ := h.holds hget
      obtain ⟨mem', hclear, -, hframe⟩ := clear_spec hholds
      rw [hget] at hstep
      dsimp only at hstep
      rw [hclear] at hstep
      obtain rfl := Option.some.inj hstep
      by_cases heq : id = id'
      · subst heq
        rw [framed_set_self] at hf
        cases hf
      · rw [h.framed_set hframe heq] at hf
        exact .same _ hf fun _ h => by cases h
  | forward id' agent client =>
    unfold Gate.step at hstep
    dsimp only at hstep
    obtain rfl := Option.some.inj hstep
    unfold Gate.framed at hf
    dsimp only at hf
    by_cases heq : id = id'
    · subst heq
      rw [update_self, Option.map_map] at hf
      obtain ⟨c, hget, rfl⟩ := Option.map_eq_some_iff.mp hf
      refine .forward agent client (c.framed (c.buffer.contents g.mp)) ?_ rfl
      unfold Gate.framed
      rw [hget, Option.map_some]
    · rw [update_of_ne heq] at hf
      exact .same _ hf fun _ h => by cases h
  | broker address =>
    unfold Gate.step at hstep
    dsimp only at hstep
    obtain rfl := Option.some.inj hstep
    exact .same _ hf fun _ h => by cases h

/-- A gate whose connections are as `P` says -/
structure Gate.Keeps (headerSize : ℕ) (P : Framed → Prop) (g : Gate) : Prop where
  header : g.headerSize = headerSize
  inv : ∃ free nodes, Inv g free nodes
  framed : ∀ id f, g.framed id = some f → P f

/-- **The rule for connections.** What holds of the bytes of a new connection, and is kept when a
block is dispatched and when an agent is set, holds of all connections in a guarded run. -/
theorem run_framed {headerSize watchdog : ℕ} {P : Framed → Prop} {ok : Gate → Action → Prop}
    (hsize : headerSize = 2 ∨ headerSize = 4) {actions : List Action}
    (hinit : P ⟨0, 0, 0, [], [], [], 0⟩)
    (hset : ∀ f agent client, P f → P { f with agent := agent, client := client })
    (hdata : ∀ (g : Gate) id c data f', g.headerSize = headerSize → g.connection id = some c →
      ok g (.data id data) → P (c.framed (c.buffer.contents g.mp)) →
        ((c.framed (c.buffer.contents g.mp)).receive data).Drains headerSize (g.receiver id c) f' →
          P f')
    (hguard : Guarded Gate.step ok (.init headerSize watchdog) actions)
    (hrun : run Gate.step (.init headerSize watchdog) actions = some g) :
    g.Keeps headerSize P := by
  have hstart : (Gate.init headerSize watchdog).Keeps headerSize P :=
    ⟨rfl, ⟨_, _, inv_init watchdog⟩, fun id f hf => by cases hf⟩
  refine run_invariant ?_ hstart hguard hrun
  intro g a g' hg hok hstep
  obtain ⟨rfl, ⟨free, nodes, hinv⟩, hP⟩ := hg
  obtain ⟨g'', hstep', hheader, hinv'⟩ := hinv.step hsize a
  obtain rfl := Option.some.inj (hstep.symm.trans hstep')
  refine ⟨hheader, hinv', fun id f hf => ?_⟩
  have hmoves := hinv.moves (by omega) hstep hf
  cases hmoves with
  | same _ hold _ => exact hP id f hold
  | accept hnew => exact hnew ▸ hinit
  | data data c hget hdrains =>
    refine hdata g id c data f rfl hget hok (hP id _ ?_) hdrains
    unfold Gate.framed
    rw [hget, Option.map_some]
  | forward agent client f₀ hold hf' => exact hf' ▸ hset f₀ agent client (hP id f₀ hold)

end

end SkynetEureka.ServiceGate
