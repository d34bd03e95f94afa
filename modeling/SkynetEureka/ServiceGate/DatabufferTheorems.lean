import SkynetEureka.Lib.Linked
import SkynetEureka.ServiceGate.Databuffer

/-!
# The buffers share a pool

`World mem free nodes` says what the memory looks like: the free messages are a linked list, the
messages `nodes id` of each socket are apart from them and from those of other sockets, and each
block is held by one message or has been freed once. `Stores mem db l bytes` says that the buffer
has the messages `l`, and that `bytes` is what has not been read of them.
-/

namespace SkynetEureka.ServiceGate

open Lib Function

namespace Memory

variable (mem : Memory)

def next (a : ℕ) : Option ℕ := (mem.message a).next

/-- The block of a message -/
def data (a : ℕ) : List UInt8 :=
  ((mem.message a).buffer.bind fun b => mem.blocks[b]?).elim [] Block.data

/-- The blocks that messages hold -/
def held (l : List ℕ) : List ℕ := l.filterMap fun a => (mem.message a).buffer

end Memory

/-- The messages of the pool and the blocks of the sockets. -/
structure World (mem : Memory) (free : List ℕ) (nodes : ℕ → List ℕ) : Prop where
  freelist : Linked mem.next mem.freelist free
  free_nodup : free.Nodup
  free_lt : ∀ a ∈ free, a < mem.allocated
  nodup : ∀ id, (nodes id).Nodup
  lt : ∀ id, ∀ a ∈ nodes id, a < mem.allocated
  apart : ∀ id, ∀ a ∈ nodes id, a ∉ free
  distinct : ∀ id id', id ≠ id' → ∀ a ∈ nodes id, a ∉ nodes id'
  block : ∀ id, ∀ a ∈ nodes id, ∃ (b : ℕ) (block : Block), (mem.message a).buffer = some b ∧
    mem.blocks[b]? = some block ∧ block.socket = id ∧
      (mem.message a).size = block.data.length ∧ block.data ≠ []
  once : ∀ (b : ℕ) block, mem.blocks[b]? = some block →
    mem.freed.count b + (mem.held (nodes block.socket)).count b = 1
  freed_lt : ∀ b ∈ mem.freed, b < mem.blocks.length

/-- The messages of a buffer, and what has not been read of them. -/
structure Stores (mem : Memory) (db : Databuffer) (l : List ℕ) (bytes : List UInt8) : Prop where
  linked : Linked mem.next db.head l
  tail : db.tail = l.getLast?
  offset : ∀ a ∈ l.head?, db.offset < (mem.message a).size
  start : l = [] → db.offset = 0
  bytes : bytes = (l.flatMap mem.data).drop db.offset

/-- Between the two memories, the messages of other sockets have not changed, and the blocks are
those that were there and perhaps more. -/
structure Frame (mem mem' : Memory) (nodes : ℕ → List ℕ) (id : ℕ) : Prop where
  message : ∀ id', id' ≠ id → ∀ a ∈ nodes id', mem'.message a = mem.message a
  blocks : ∀ (b : ℕ) block, mem.blocks[b]? = some block → mem'.blocks[b]? = some block

section

variable {mem mem' : Memory} {free : List ℕ} {nodes : ℕ → List ℕ} {id a : ℕ} {l : List ℕ}
  {db : Databuffer} {bytes : List UInt8}

theorem Frame.refl : Frame mem mem nodes id := ⟨fun _ _ _ _ => rfl, fun _ _ h => h⟩

theorem Frame.trans {mem'' : Memory} (h : Frame mem mem' nodes id)
    (h' : Frame mem' mem'' (update nodes id l) id) : Frame mem mem'' nodes id := by
  constructor
  · intro id' hne a ha
    have hsame : update nodes id l id' = nodes id' := update_of_ne hne _ _
    rw [h'.message id' hne a (hsame ▸ ha), h.message id' hne a ha]
  · intro b block hget
    exact h'.blocks b block (h.blocks b block hget)

/-! ## What a message holds -/

theorem World.data_eq (hw : World mem free nodes) (ha : a ∈ nodes id) :
    ∃ (b : ℕ) (block : Block), (mem.message a).buffer = some b ∧ mem.blocks[b]? = some block ∧
      block.socket = id ∧ mem.data a = block.data ∧ (mem.message a).size = block.data.length ∧
        block.data ≠ [] := by
  obtain ⟨b, block, hbuffer, hblock, hsocket, hsize, hne⟩ := hw.block id a ha
  refine ⟨b, block, hbuffer, hblock, hsocket, ?_, hsize, hne⟩
  unfold Memory.data
  rw [hbuffer, Option.bind_some, hblock]
  rfl

theorem World.length_data (hw : World mem free nodes) (ha : a ∈ nodes id) :
    (mem.data a).length = (mem.message a).size ∧ 0 < (mem.message a).size := by
  obtain ⟨b, block, -, -, -, hdata, hsize, hne⟩ := hw.data_eq ha
  rw [hdata, hsize]
  exact ⟨rfl, List.length_pos_of_ne_nil hne⟩

/-- The block of a message has not been freed. -/
theorem World.not_freed (hw : World mem free nodes) (ha : a ∈ nodes id) {b : ℕ}
    (hbuffer : (mem.message a).buffer = some b) : b ∉ mem.freed := by
  obtain ⟨b', block, hbuffer', hblock, hsocket, -⟩ := hw.data_eq ha
  obtain rfl := Option.some.inj (hbuffer.symm.trans hbuffer')
  have honce := hw.once b block hblock
  have hheld : b ∈ mem.held (nodes block.socket) :=
    List.mem_filterMap.mpr ⟨a, hsocket ▸ ha, hbuffer⟩
  have hpos := List.count_pos_iff.mpr hheld
  exact List.count_eq_zero.mp (by omega)

theorem World.copy (hw : World mem free nodes) (ha : a ∈ nodes id) {offset n : ℕ}
    (hle : offset + n ≤ (mem.message a).size) :
    mem.copy (mem.message a).buffer offset n = some (((mem.data a).drop offset).take n) := by
  obtain ⟨b, block, hbuffer, hblock, -, hdata, hsize, -⟩ := hw.data_eq ha
  have hfreed := hw.not_freed ha hbuffer
  unfold Memory.copy
  rw [hbuffer, hdata, Option.bind_eq_bind, Option.bind_some, hblock]
  show (if _ then _ else _) = _
  rw [if_neg]
  rintro (hmem | hlt)
  · exact hfreed hmem
  · omega

/-- The memory is the same as far as the messages of a socket go. -/
theorem data_congr (hsame : mem'.message a = mem.message a)
    (hblocks : ∀ (b : ℕ) block, mem.blocks[b]? = some block → mem'.blocks[b]? = some block)
    (hw : World mem free nodes) (ha : a ∈ nodes id) : mem'.data a = mem.data a := by
  obtain ⟨b, block, hbuffer, hblock, -, hdata, -⟩ := hw.data_eq ha
  rw [hdata]
  unfold Memory.data
  rw [hsame, hbuffer, Option.bind_some, hblocks b block hblock]
  rfl

/-- The buffer of another socket is not touched. -/
theorem Stores.frame (hs : Stores mem db (nodes id) bytes) (hw : World mem free nodes)
    (hsame : ∀ a ∈ nodes id, mem'.message a = mem.message a)
    (hblocks : ∀ (b : ℕ) block, mem.blocks[b]? = some block → mem'.blocks[b]? = some block) :
    Stores mem' db (nodes id) bytes := by
  refine ⟨?_, hs.tail, ?_, hs.start, ?_⟩
  · refine hs.linked.congr fun a ha => ?_
    unfold Memory.next
    rw [hsame a ha]
  · intro a ha
    rw [hsame a (List.mem_of_mem_head? ha)]
    exact hs.offset a ha
  · rw [hs.bytes]
    congr 1
    rw [List.flatMap_congr fun a ha => data_congr (hsame a ha) hblocks hw ha]

/-! ## Messages go back to the pool -/

theorem held_cons (mem : Memory) (a : ℕ) (l : List ℕ) :
    mem.held (a :: l) = (mem.message a).buffer.toList ++ mem.held l := by
  unfold Memory.held
  rw [List.filterMap_cons]
  cases (mem.message a).buffer with
  | none => rfl
  | some b => rfl

theorem held_congr {l : List ℕ} (hsame : ∀ a ∈ l, mem'.message a = mem.message a) :
    mem'.held l = mem.held l := by
  unfold Memory.held
  exact List.filterMap_congr fun a ha => by rw [hsame a ha]

/-- The memory after a message has gone back to the pool and its block has been freed. -/
def Memory.release (mem : Memory) (a : ℕ) : Memory :=
  { mem with
    message := update mem.message a ⟨none, 0, mem.freelist⟩
    freelist := some a
    freed := mem.freed ++ (mem.message a).buffer.toList }

theorem World.release (hw : World mem free nodes) (hnodes : nodes id = a :: l) :
    World (mem.release a) (a :: free) (update nodes id l) := by
  have ha : a ∈ nodes id := hnodes ▸ List.mem_cons_self
  have hl : ∀ b ∈ l, b ∈ nodes id := fun b hb => hnodes ▸ List.mem_cons_of_mem _ hb
  obtain ⟨hal, hlnodup⟩ := List.nodup_cons.mp (hnodes ▸ hw.nodup id)
  have hself : (mem.release a).message a = ⟨none, 0, mem.freelist⟩ := update_self _ _ _
  have hother : ∀ b, b ≠ a → (mem.release a).message b = mem.message b :=
    fun b hne => update_of_ne hne _ _
  -- the messages of a socket that are left
  have hsub : ∀ id', ∀ b ∈ update nodes id l id', b ∈ nodes id' ∧ b ≠ a := by
    intro id' b hb
    by_cases heq : id' = id
    · subst heq
      rw [update_self] at hb
      exact ⟨hl b hb, fun hba => hal (hba ▸ hb)⟩
    · rw [update_of_ne heq] at hb
      exact ⟨hb, fun hba => hw.distinct id' id heq b hb (hba ▸ ha)⟩
  refine ⟨?_, ?_, ?_, ?_, ?_, ?_, ?_, ?_, ?_, ?_⟩
  · refine ⟨rfl, ?_⟩
    show Linked _ ((mem.release a).message a).next free
    rw [hself]
    refine hw.freelist.congr fun b hb => ?_
    unfold Memory.next
    rw [hother b fun hba => hw.apart id a ha (hba ▸ hb)]
  · exact List.nodup_cons.mpr ⟨hw.apart id a ha, hw.free_nodup⟩
  · intro b hb
    rcases List.mem_cons.mp hb with rfl | hb
    · exact hw.lt id b ha
    · exact hw.free_lt b hb
  · intro id'
    by_cases heq : id' = id
    · subst heq
      rw [update_self]
      exact hlnodup
    · rw [update_of_ne heq]
      exact hw.nodup id'
  · intro id' b hb
    exact hw.lt id' b (hsub id' b hb).1
  · intro id' b hb
    rw [List.mem_cons]
    exact fun h => h.elim (hsub id' b hb).2 (hw.apart id' b (hsub id' b hb).1)
  · intro id₁ id₂ hne b hb₁ hb₂
    exact hw.distinct id₁ id₂ hne b (hsub id₁ b hb₁).1 (hsub id₂ b hb₂).1
  · intro id' b hb
    obtain ⟨hin, hne⟩ := hsub id' b hb
    rw [hother b hne]
    exact hw.block id' b hin
  · intro b block hget
    have honce := hw.once b block hget
    have hheld : ∀ id', (mem.release a).held (update nodes id l id') =
        mem.held (update nodes id l id') := fun id' =>
      held_congr fun c hc => hother c (hsub id' c hc).2
    show (mem.freed ++ (mem.message a).buffer.toList).count b + _ = 1
    rw [hheld, List.count_append]
    by_cases heq : block.socket = id
    · rw [heq, update_self]
      rw [heq, hnodes, held_cons, List.count_append] at honce
      omega
    · rw [update_of_ne heq]
      -- the block of the message is of its own socket
      obtain ⟨b', block', hbuffer, hblock', hsocket', -⟩ := hw.block id a ha
      have hne : b' ≠ b := by
        rintro rfl
        obtain rfl := Option.some.inj (hget.symm.trans hblock')
        exact heq hsocket'
      rw [hbuffer, Option.toList_some, List.count_singleton, if_neg (by simpa using hne)]
      omega
  · intro b hb
    rcases List.mem_append.mp hb with hold | hnew
    · exact hw.freed_lt b hold
    · obtain ⟨b', block', hbuffer, hblock', -⟩ := hw.block id a ha
      rw [hbuffer, Option.toList_some, List.mem_singleton] at hnew
      rw [hnew]
      exact (List.getElem?_eq_some_iff.mp hblock').1

theorem frame_release (hw : World mem free nodes) (ha : a ∈ nodes id) :
    Frame mem (mem.release a) nodes id := by
  refine ⟨fun id' hne b hb => update_of_ne ?_ _ _, fun _ _ h => h⟩
  rintro rfl
  exact hw.distinct id' id hne b hb ha

/-- `_return_message` takes the first message out of the list. -/
theorem returnMessage_eq (hlinked : Linked mem.next db.head (a :: l))
    (htail : db.tail = (a :: l).getLast?) (hal : a ∉ l) :
    db.returnMessage mem =
        some ({ db with head := mem.next a, tail := l.getLast? }, mem.release a) ∧
      Linked (mem.release a).next (mem.next a) l := by
  obtain ⟨hhead, hrest⟩ := hlinked
  have hframe : ∀ b ∈ l, (mem.release a).next b = mem.next b := by
    intro b hb
    unfold Memory.next
    rw [show (mem.release a).message b = mem.message b from
      update_of_ne (fun hba : b = a => hal (hba ▸ hb)) _ _]
  refine ⟨?_, hrest.congr hframe⟩
  unfold Databuffer.returnMessage
  rw [hhead, Option.bind_eq_bind, Option.bind_some]
  dsimp only
  cases l with
  | nil =>
    have hnext : (mem.message a).next = none := hrest
    rw [hnext]
    have hlast : db.tail = some a := htail
    dsimp only
    rw [if_pos hlast]
    unfold Memory.next
    rw [hnext]
    rfl
  | cons c l =>
    have hnext : (mem.message a).next = some c := hrest.1
    have hlast : (c :: l).getLast? = db.tail := by
      rw [htail, List.getLast?_cons_cons]
    rw [hnext, hlast]
    unfold Memory.next
    rw [hnext]
    rfl

/-! ## Reading -/

/-- What the first message holds comes first. -/
theorem Stores.first (hs : Stores mem db (nodes id) bytes) (hw : World mem free nodes)
    (hnodes : nodes id = a :: l) :
    bytes = (mem.data a).drop db.offset ++ l.flatMap mem.data ∧
      ((mem.data a).drop db.offset).length = (mem.message a).size - db.offset ∧
        db.offset < (mem.message a).size := by
  have ha : a ∈ nodes id := hnodes ▸ List.mem_cons_self
  have hlength := (hw.length_data ha).1
  have hoffset := hs.offset a (by rw [hnodes]; rfl)
  refine ⟨?_, by rw [List.length_drop, hlength], hoffset⟩
  rw [hs.bytes, hnodes, List.flatMap_cons, List.drop_append_of_le_length (by omega)]

/-- The buffer after its first message has gone -/
theorem Stores.release (hs : Stores mem db (nodes id) bytes) (hw : World mem free nodes)
    (hnodes : nodes id = a :: l) :
    (∀ db' : Databuffer, db'.head = db.head → db'.tail = db.tail → db'.returnMessage mem =
        some ({ db' with head := mem.next a, tail := l.getLast? }, mem.release a)) ∧
      Stores (mem.release a) ⟨db.header, 0, db.size, mem.next a, l.getLast?⟩
        l (l.flatMap mem.data) := by
  have ha : a ∈ nodes id := hnodes ▸ List.mem_cons_self
  have hl : ∀ b ∈ l, b ∈ nodes id := fun b hb => hnodes ▸ List.mem_cons_of_mem _ hb
  have hal : a ∉ l := (List.nodup_cons.mp (hnodes ▸ hw.nodup id)).1
  have hsame : ∀ b ∈ l, (mem.release a).message b = mem.message b :=
    fun b hb => update_of_ne (fun hba : b = a => hal (hba ▸ hb)) _ _
  have hlinked : Linked mem.next db.head (a :: l) := hnodes ▸ hs.linked
  have htail : db.tail = (a :: l).getLast? := hnodes ▸ hs.tail
  refine ⟨fun db' hhead' htail' => ?_, (returnMessage_eq hlinked htail hal).2, rfl, ?_,
    fun _ => rfl, ?_⟩
  · exact (returnMessage_eq (hhead' ▸ hlinked) (htail'.trans htail) hal).1
  · intro b hb
    have hb := List.mem_of_mem_head? hb
    rw [hsame b hb]
    exact (hw.length_data (hl b hb)).2
  · show _ = List.drop 0 _
    rw [List.drop_zero]
    apply List.flatMap_congr
    intro b hb
    exact (data_congr (hsame b hb) (fun _ _ h => h) hw (hl b hb)).symm

/-- What a read leaves: the bytes that come next have been read, and the rest is still there. -/
structure ReadTo (mem : Memory) (db : Databuffer) (nodes : ℕ → List ℕ) (id : ℕ)
    (rest : List UInt8) (mem' : Memory) (db' : Databuffer) : Prop where
  buffer : ∃ free' l', World mem' free' (update nodes id l') ∧ Stores mem' db' l' rest
  header : db'.header = db.header
  size : db'.size = db.size
  frame : Frame mem mem' nodes id

/-- Each round takes bytes of the first message, and the last one may take a part of it. -/
theorem readLoop_spec {rounds sz : ℕ} (hw : World mem free nodes)
    (hs : Stores mem db (nodes id) bytes) (hpos : 0 < sz) (hle : sz ≤ bytes.length)
    (hrounds : sz ≤ rounds) :
    ∃ db' mem', db.readLoop rounds mem sz = some (db', mem', bytes.take sz) ∧
      ReadTo mem db nodes id (bytes.drop sz) mem' db' := by
  induction rounds generalizing db mem free nodes bytes sz with
  | zero => omega
  | succ rounds ih =>
    cases hnodes : nodes id with
    | nil =>
      rw [hs.bytes, hnodes, List.flatMap_nil, List.drop_nil, List.length_nil] at hle
      omega
    | cons a l =>
      have ha : a ∈ nodes id := hnodes ▸ List.mem_cons_self
      have hhead : db.head = some a := (hnodes ▸ hs.linked : Linked _ _ (a :: l)).1
      obtain ⟨hbytes, hlength, hoffset⟩ := hs.first hw hnodes
      obtain ⟨hreturn, hstores⟩ := hs.release hw hnodes
      have hframe := frame_release hw ha
      have hworld := hw.release hnodes
      unfold Databuffer.readLoop
      rw [hhead, Option.bind_eq_bind, Option.bind_some]
      dsimp only
      by_cases hlt : sz < (mem.message a).size - db.offset
      · -- a part of the first message
        rw [if_pos hlt, hw.copy ha (by omega), Option.bind_eq_bind, Option.bind_some]
        refine ⟨{ db with offset := db.offset + sz }, mem, ?_, ⟨free, nodes id, ?_, ?_⟩,
          rfl, rfl, .refl⟩
        · show some _ = some _
          rw [hbytes, List.take_append_of_le_length (by omega), hhead]
        · rw [update_eq_self]
          exact hw
        · refine ⟨hs.linked, hs.tail, ?_, ?_, ?_⟩
          · intro b hb
            rw [hnodes] at hb
            cases hb
            show db.offset + sz < _
            omega
          · intro hnil
            rw [hnodes] at hnil
            cases hnil
          · rw [hs.bytes, List.drop_drop]
      · rw [if_neg hlt]
        by_cases heq : (mem.message a).size - db.offset = sz
        · -- the first message to its end
          have hlast := hreturn { db with offset := 0, head := some a } hhead.symm rfl
          rw [if_pos heq, hw.copy ha (by omega), Option.bind_eq_bind, Option.bind_some, hlast]
          refine ⟨⟨db.header, 0, db.size, mem.next a, l.getLast?⟩, mem.release a, ?_,
            ⟨_, l, hworld, ?_⟩, rfl, rfl, hframe⟩
          · rw [hbytes, List.take_append_of_le_length (by omega)]
            rfl
          · rw [hbytes, ← heq, ← hlength, List.drop_left]
            exact hstores
        · -- the first message, and more of the next ones
          have hlen : bytes.length = ((mem.data a).drop db.offset).length +
              (l.flatMap mem.data).length := by rw [hbytes, List.length_append]
          obtain ⟨db', mem', hrest, ⟨free', l', hworld', hstores'⟩, hheader, hsize, hframe'⟩ :=
            ih hworld (by rw [update_self]; exact hstores)
              (show 0 < sz - ((mem.message a).size - db.offset) by omega) (by omega) (by omega)
          rw [update_idem] at hworld'
          rw [if_neg heq, hw.copy ha (by omega), Option.bind_eq_bind, Option.bind_some,
            hreturn db rfl rfl, Option.bind_eq_bind, Option.bind_some]
          dsimp only
          rw [hrest]
          refine ⟨db', mem', ?_, ⟨free', l', hworld', ?_⟩, hheader, hsize, hframe.trans hframe'⟩
          · rw [hbytes, List.take_append, ← hlength,
              List.take_of_length_le (i := sz) (by omega), List.take_length]
            rfl
          · rw [hbytes, List.drop_append, List.drop_eq_nil_of_le (by omega), List.nil_append,
              hlength]
            exact hstores'

/-! ## A block is added -/

/-- The free messages have changed, and what the sockets have is the same. -/
theorem World.refill {free' : List ℕ} (hw : World mem free nodes)
    (hfree : Linked mem'.next mem'.freelist free') (hnodup : free'.Nodup)
    (hlt : ∀ a ∈ free', a < mem'.allocated) (hgrown : mem.allocated ≤ mem'.allocated)
    (hapart : ∀ id, ∀ a ∈ nodes id, a ∉ free')
    (hsame : ∀ id, ∀ a ∈ nodes id, mem'.message a = mem.message a)
    (hblocks : mem'.blocks = mem.blocks) (hfreed : mem'.freed = mem.freed) :
    World mem' free' nodes := by
  refine ⟨hfree, hnodup, hlt, hw.nodup, ?_, hapart, hw.distinct, ?_, ?_, ?_⟩
  · intro id a ha
    exact (hw.lt id a ha).trans_le hgrown
  · intro id a ha
    rw [hsame id a ha, hblocks]
    exact hw.block id a ha
  · intro b block hget
    rw [hblocks] at hget
    rw [hfreed, held_congr (hsame block.socket)]
    exact hw.once b block hget
  · rw [hfreed, hblocks]
    exact hw.freed_lt

/-- A message that nobody has is taken out of the pool. -/
theorem takeMessage_spec (hw : World mem free nodes) :
    ∃ free', World mem.takeMessage.2 free' nodes ∧ mem.takeMessage.1 ∉ free' ∧
      (∀ id, mem.takeMessage.1 ∉ nodes id) ∧ mem.takeMessage.1 < mem.takeMessage.2.allocated ∧
        (∀ id, ∀ b ∈ nodes id, mem.takeMessage.2.message b = mem.message b) ∧
          mem.takeMessage.2.blocks = mem.blocks ∧ mem.takeMessage.2.freed = mem.freed := by
  unfold Memory.takeMessage
  cases hfree : mem.freelist with
  | some a =>
    dsimp only
    obtain ⟨free', rfl, hlinked⟩ := (hfree ▸ hw.freelist).exists_cons
    obtain ⟨hafree, hnodup⟩ := List.nodup_cons.mp hw.free_nodup
    have ha : ∀ id, a ∉ nodes id := fun id h => hw.apart id a h List.mem_cons_self
    refine ⟨free', ?_, hafree, ha, hw.free_lt a List.mem_cons_self, fun _ _ _ => rfl, rfl, rfl⟩
    refine hw.refill hlinked hnodup ?_ le_rfl ?_ (fun _ _ _ => rfl) rfl rfl
    · exact fun b hb => hw.free_lt b (List.mem_cons_of_mem _ hb)
    · exact fun id b hb h => hw.apart id b hb (List.mem_cons_of_mem _ h)
  | none =>
    dsimp only
    -- all messages are in use, and the new ones lie behind them
    have hold : ∀ id, mem.allocated ∉ nodes id := fun id h => (hw.lt id _ h).false
    have hsame : ∀ id, ∀ b ∈ nodes id, ¬(mem.allocated < b ∧ b < mem.allocated + messagePool) := by
      intro id b hb
      have := hw.lt id b hb
      omega
    refine ⟨List.range' (mem.allocated + 1) 1022, ?_, ?_, hold, ?_, ?_, rfl, rfl⟩
    · refine hw.refill ?_ List.nodup_range' ?_ ?_ ?_ ?_ rfl rfl
      · refine Linked.range' (fun i hi => ?_) (by omega)
        unfold Memory.next messagePool
        dsimp only
        rw [if_pos (by omega)]
        dsimp only
        by_cases hlt : i + 1 < 1022
        · rw [if_pos hlt, if_pos (by omega)]
        · rw [if_neg hlt, if_neg (by omega)]
      · intro b hb
        rw [List.mem_range'_1] at hb
        show b < mem.allocated + 1023
        omega
      · show mem.allocated ≤ mem.allocated + messagePool
        omega
      · intro id b hb hmem
        rw [List.mem_range'_1] at hmem
        have := hw.lt id b hb
        omega
      · exact fun id b hb => if_neg (hsame id b hb)
    · rw [List.mem_range'_1]
      omega
    · show mem.allocated < mem.allocated + 1023
      omega
    · exact fun id b hb => if_neg (hsame id b hb)

/-- The memory after the pointer of a message has been set. -/
def Memory.link (mem : Memory) (a : ℕ) (next : Option ℕ) : Memory :=
  { mem with message := update mem.message a { mem.message a with next := next } }

theorem link_buffer (mem : Memory) (a b : ℕ) (next : Option ℕ) :
    ((mem.link a next).message b).buffer = (mem.message b).buffer := by
  unfold Memory.link
  dsimp only
  by_cases heq : b = a
  · subst heq
    rw [update_self]
  · rw [update_of_ne heq]

theorem link_size (mem : Memory) (a b : ℕ) (next : Option ℕ) :
    ((mem.link a next).message b).size = (mem.message b).size := by
  unfold Memory.link
  dsimp only
  by_cases heq : b = a
  · subst heq
    rw [update_self]
  · rw [update_of_ne heq]

theorem link_self (mem : Memory) (a : ℕ) (next : Option ℕ) :
    (mem.link a next).message a = { mem.message a with next := next } := update_self _ _ _

theorem World.link (hw : World mem free nodes) (ha : a ∈ nodes id) (next : Option ℕ) :
    World (mem.link a next) free nodes := by
  refine ⟨?_, hw.free_nodup, hw.free_lt, hw.nodup, hw.lt, hw.apart, hw.distinct, ?_, ?_,
    hw.freed_lt⟩
  · refine hw.freelist.congr fun b hb => ?_
    exact congrArg Message.next (update_of_ne (fun hba : b = a => hw.apart id a ha (hba ▸ hb)) _ _)
  · intro id' b hb
    rw [link_buffer, link_size]
    exact hw.block id' b hb
  · intro b block hget
    have hheld : (mem.link a next).held (nodes block.socket) = mem.held (nodes block.socket) :=
      List.filterMap_congr fun c _ => link_buffer mem a c next
    rw [hheld]
    exact hw.once b block hget

/-- The memory after a message has got a block that has come. -/
def Memory.insert (mem : Memory) (a id : ℕ) (data : List UInt8) : Memory :=
  { mem with
    message := update mem.message a ⟨some mem.blocks.length, data.length, none⟩
    blocks := mem.blocks ++ [⟨id, data⟩] }

theorem insert_self (mem : Memory) (a id : ℕ) (data : List UInt8) :
    (mem.insert a id data).message a = ⟨some mem.blocks.length, data.length, none⟩ :=
  update_self _ _ _

theorem insert_of_ne {b : ℕ} (data : List UInt8) (hne : b ≠ a) :
    (mem.insert a id data).message b = mem.message b := update_of_ne hne _ _

theorem insert_blocks {b : ℕ} {block : Block} (a id : ℕ) (data : List UInt8)
    (hget : mem.blocks[b]? = some block) : (mem.insert a id data).blocks[b]? = some block := by
  show (mem.blocks ++ _)[b]? = _
  rw [List.getElem?_append_left (List.getElem?_eq_some_iff.mp hget).1]
  exact hget

theorem insert_last (mem : Memory) (a id : ℕ) (data : List UInt8) :
    (mem.insert a id data).blocks[mem.blocks.length]? = some ⟨id, data⟩ := by
  show (mem.blocks ++ _)[_]? = _
  rw [List.getElem?_append_right le_rfl, Nat.sub_self]
  rfl

/-- The block that comes is in no message yet. -/
theorem World.not_held (hw : World mem free nodes) (id : ℕ) :
    mem.blocks.length ∉ mem.held (nodes id) := by
  intro hmem
  obtain ⟨a, ha, hbuffer⟩ := List.mem_filterMap.mp hmem
  obtain ⟨b, block, hbuffer', hblock, -⟩ := hw.block id a ha
  obtain rfl := Option.some.inj (hbuffer.symm.trans hbuffer')
  exact (List.getElem?_eq_some_iff.mp hblock).1.false

theorem held_append (mem : Memory) (l l' : List ℕ) :
    mem.held (l ++ l') = mem.held l ++ mem.held l' := List.filterMap_append

theorem World.insert {data : List UInt8} (hw : World mem free nodes) (hfree : a ∉ free)
    (ha : ∀ id, a ∉ nodes id) (hlt : a < mem.allocated) (hne : data ≠ []) :
    World (mem.insert a id data) free (update nodes id (nodes id ++ [a])) := by
  have hin : ∀ id', ∀ b ∈ update nodes id (nodes id ++ [a]) id',
      b ∈ nodes id' ∨ b = a ∧ id' = id := by
    intro id' b hb
    by_cases heq : id' = id
    · subst heq
      rw [update_self, List.mem_append, List.mem_singleton] at hb
      exact hb.imp_right fun h => ⟨h, rfl⟩
    · rw [update_of_ne heq] at hb
      exact .inl hb
  have hnodes : ∀ id', ∀ b ∈ nodes id', b ≠ a := fun id' b hb hba => ha id' (hba ▸ hb)
  refine ⟨?_, hw.free_nodup, hw.free_lt, ?_, ?_, ?_, ?_, ?_, ?_, ?_⟩
  · refine hw.freelist.congr fun b hb => ?_
    exact congrArg Message.next (insert_of_ne data fun hba => hfree (hba ▸ hb))
  · intro id'
    by_cases heq : id' = id
    · subst heq
      rw [update_self]
      exact (hw.nodup id').append (List.nodup_singleton a) (List.disjoint_singleton.mpr (ha id'))
    · rw [update_of_ne heq]
      exact hw.nodup id'
  · intro id' b hb
    rcases hin id' b hb with hold | ⟨rfl, -⟩
    · exact hw.lt id' b hold
    · exact hlt
  · intro id' b hb
    rcases hin id' b hb with hold | ⟨rfl, -⟩
    · exact hw.apart id' b hold
    · exact hfree
  · intro id₁ id₂ hne' b hb₁ hb₂
    rcases hin id₁ b hb₁ with h₁ | ⟨hba, h₁⟩
    · rcases hin id₂ b hb₂ with h₂ | ⟨rfl, -⟩
      · exact hw.distinct id₁ id₂ hne' b h₁ h₂
      · exact ha id₁ h₁
    · rcases hin id₂ b hb₂ with h₂ | ⟨-, h₂⟩
      · exact ha id₂ (hba ▸ h₂)
      · exact hne' (h₁.trans h₂.symm)
  · intro id' b hb
    rcases hin id' b hb with hold | ⟨rfl, rfl⟩
    · obtain ⟨b', block, hbuffer, hblock, hrest⟩ := hw.block id' b hold
      rw [insert_of_ne data (hnodes id' b hold)]
      exact ⟨b', block, hbuffer, insert_blocks a id data hblock, hrest⟩
    · rw [insert_self]
      exact ⟨mem.blocks.length, ⟨id', data⟩, rfl, insert_last mem b id' data, rfl, rfl, hne⟩
  · intro b block hget
    have hheld : ∀ id', (mem.insert a id data).held (nodes id') = mem.held (nodes id') :=
      fun id' => held_congr fun c hc => insert_of_ne data (hnodes id' c hc)
    have hlast : (mem.insert a id data).held [a] = [mem.blocks.length] := by
      rw [held_cons, insert_self]
      rfl
    show mem.freed.count b + _ = 1
    by_cases hb : b = mem.blocks.length
    · -- the block that has come
      subst hb
      rw [insert_last] at hget
      obtain rfl := Option.some.inj hget
      rw [update_self, held_append, hheld, hlast, List.count_append,
        List.count_eq_zero.mpr (hw.not_held id), List.count_singleton_self,
        List.count_eq_zero.mpr fun hmem => (hw.freed_lt _ hmem).false]
    · have hold : mem.blocks[b]? = some block := by
        have hlt := (List.getElem?_eq_some_iff.mp hget).1
        have hlength : (mem.insert a id data).blocks.length = mem.blocks.length + 1 :=
          List.length_append
        rw [← hget]
        exact (List.getElem?_append_left (by omega)).symm
      have honce := hw.once b block hold
      by_cases heq : block.socket = id
      · rw [heq, update_self, held_append, hheld, hlast, List.count_append,
          List.count_singleton, if_neg (by simpa using fun h => hb h.symm), ← heq]
        exact honce
      · rw [update_of_ne heq, hheld]
        exact honce
  · intro b hb
    show b < (mem.blocks ++ _).length
    rw [List.length_append]
    exact (hw.freed_lt b hb).trans_le (by omega)

/-! ## The operations of a socket -/

/-- The memory when the buffer of a socket has these bytes that have not been read, and the other
sockets have their messages. -/
def Holds (mem : Memory) (nodes : ℕ → List ℕ) (id : ℕ) (db : Databuffer) (bytes : List UInt8) :
    Prop :=
  ∃ free l, World mem free (update nodes id l) ∧ Stores mem db l bytes ∧ db.size = bytes.length

theorem Frame.of_update (h : Frame mem mem' (update nodes id l) id) : Frame mem mem' nodes id := by
  refine ⟨fun id' hne a ha => h.message id' hne a ?_, h.blocks⟩
  rw [update_of_ne hne]
  exact ha

theorem Frame.comp {mem'' : Memory} (h : Frame mem mem' nodes id) (h' : Frame mem' mem'' nodes id) :
    Frame mem mem'' nodes id := by
  refine ⟨fun id' hne a ha => ?_, fun b block hget => h'.blocks b block (h.blocks b block hget)⟩
  rw [h'.message id' hne a ha, h.message id' hne a ha]

theorem read_spec {sz : ℕ} (hs : Holds mem nodes id db bytes) (hpos : 0 < sz)
    (hle : sz ≤ bytes.length) :
    ∃ db' mem', db.read mem sz = some (db', mem', bytes.take sz) ∧ db'.header = db.header ∧
      Holds mem' nodes id db' (bytes.drop sz) ∧ Frame mem mem' nodes id := by
  obtain ⟨free, l, hw, hstores, hsize⟩ := hs
  have hstores' : Stores mem { db with size := db.size - sz } (update nodes id l id) bytes := by
    rw [update_self]
    exact ⟨hstores.linked, hstores.tail, hstores.offset, hstores.start, hstores.bytes⟩
  obtain ⟨db', mem', hread, ⟨free', l', hworld, hstores⟩, hheader, hsize', hframe⟩ :=
    readLoop_spec hw hstores' hpos hle (Nat.le_succ sz)
  rw [update_idem] at hworld
  refine ⟨db', mem', ?_, hheader, ⟨free', l', hworld, hstores, ?_⟩, hframe.of_update⟩
  · unfold Databuffer.read
    rw [if_pos (by omega)]
    exact hread
  · rw [hsize', List.length_drop]
    show db.size - sz = _
    omega

theorem link_data (mem : Memory) (a : ℕ) (next : Option ℕ) :
    (mem.link a next).data = mem.data := by
  funext b
  unfold Memory.data
  rw [link_buffer]
  rfl

/-- A block goes behind what the buffer has. -/
theorem push_spec {data : List UInt8} (hs : Holds mem nodes id db bytes) (hne : data ≠ []) :
    ∃ db' mem', db.push mem id data = some (db', mem') ∧ db'.header = db.header ∧
      Holds mem' nodes id db' (bytes ++ data) ∧ Frame mem mem' nodes id := by
  obtain ⟨free, l, hw, hstores, hsize⟩ := hs
  obtain ⟨free', hworld, hafree, ha, halt, hsame, hblocks, -⟩ := takeMessage_spec hw
  set a := mem.takeMessage.1
  set mem₁ := mem.takeMessage.2
  have hin : ∀ id', ∀ b ∈ update nodes id l id', b ≠ a := fun id' b hb hba => ha id' (hba ▸ hb)
  have hmessage : ∀ id', ∀ b ∈ update nodes id l id',
      (mem₁.insert a id data).message b = mem.message b := by
    intro id' b hb
    rw [insert_of_ne data (hin id' b hb), hsame id' b hb]
  have hgrow : ∀ (b : ℕ) block, mem.blocks[b]? = some block →
      (mem₁.insert a id data).blocks[b]? = some block :=
    fun b block hget => insert_blocks a id data (hblocks ▸ hget)
  -- what was there is still there
  have hold : Stores (mem₁.insert a id data) db (update nodes id l id) bytes := by
    refine Stores.frame ?_ hw (hmessage id) hgrow
    rw [update_self]
    exact hstores
  rw [update_self] at hold
  have hworld' := @World.insert _ _ _ id _ _ hworld hafree ha halt hne
  rw [update_idem, update_self] at hworld'
  have hdata : (mem₁.insert a id data).data a = data := by
    unfold Memory.data
    rw [insert_self, Option.bind_some, insert_last]
    rfl
  have hframe : Frame mem (mem₁.insert a id data) nodes id := by
    refine ⟨fun id' hne' b hb => hmessage id' b ?_, hgrow⟩
    rw [update_of_ne hne']
    exact hb
  have hlength : db.size + data.length = (bytes ++ data).length := by
    rw [List.length_append, hsize]
  rcases List.eq_nil_or_concat l with rfl | ⟨l, last, rfl⟩
  · have hhead : db.head = none := hold.linked
    have htail : db.tail = none := hold.tail
    refine ⟨⟨db.header, db.offset, db.size + data.length, some a, some a⟩, mem₁.insert a id data,
      ?_, rfl, ⟨free', [a], hworld', ⟨⟨rfl, ?_⟩, rfl, ?_, ?_, ?_⟩, hlength⟩, hframe⟩
    · unfold Databuffer.push
      rw [hhead, htail]
      rfl
    · show ((mem₁.insert a id data).message a).next = none
      rw [insert_self]
    · intro b hb
      cases hb
      rw [insert_self]
      show db.offset < data.length
      rw [hold.start rfl]
      exact List.length_pos_of_ne_nil hne
    · intro hnil
      cases hnil
    · show _ = List.drop db.offset _
      rw [hold.bytes, List.flatMap_nil, List.drop_nil, hold.start rfl, List.flatMap_singleton,
        hdata]
      rfl
  · rw [List.concat_eq_append] at hold hworld' hin hstores
    have htail : db.tail = some last := by rw [hold.tail, List.getLast?_concat]
    obtain ⟨first, hhead⟩ : ∃ first, db.head = some first := by
      cases l with
      | nil => exact ⟨last, hold.linked.1⟩
      | cons b l => exact ⟨b, hold.linked.1⟩
    have hfirst : (l ++ [last] ++ [a]).head? = (l ++ [last]).head? := by
      cases l <;> rfl
    have hnodes : ∀ b ∈ l ++ [last], b ≠ a := fun b hb => hin id b (by rw [update_self]; exact hb)
    have hmem : last ∈ update nodes id (l ++ [last] ++ [a]) id := by
      rw [update_self]
      simp
    have hnodup := hworld'.nodup id
    rw [update_self] at hnodup
    have hlast : last ∉ l := fun h =>
      List.disjoint_of_nodup_append (List.nodup_append.mp hnodup).1 h (List.mem_singleton_self _)
    set mem₂ := mem₁.insert a id data
    have hother : ∀ b ≠ last, (mem₂.link last (some a)).message b = mem₂.message b :=
      fun b hne => update_of_ne hne _ _
    refine ⟨⟨db.header, db.offset, db.size + data.length, some first, some a⟩,
      mem₂.link last (some a), ?_, rfl, ⟨free', l ++ [last] ++ [a], hworld'.link hmem _,
        ⟨?_, ?_, ?_, ?_, ?_⟩, hlength⟩, ?_⟩
    · unfold Databuffer.push
      rw [hhead, htail]
      rfl
    · -- the last message gets a pointer to the new one
      refine Linked.concat (hhead ▸ hold.linked) ?_ ?_ ?_
      · unfold Memory.next
        rw [link_self]
      · unfold Memory.next
        rw [hother a fun h => hnodes last (by simp) h.symm, insert_self]
      · intro b hb
        unfold Memory.next
        rw [hother b fun h => hlast (h ▸ hb)]
    · rw [List.getLast?_concat]
    · intro b hb
      rw [hfirst] at hb
      rw [link_size]
      exact hold.offset b hb
    · intro hnil
      simp at hnil
    · show _ = List.drop db.offset _
      rw [link_data, List.flatMap_append, List.flatMap_singleton, hdata, hold.bytes]
      refine (List.drop_append_of_le_length ?_).symm
      -- the offset is within the first message
      obtain ⟨c, l', hcons⟩ := List.exists_cons_of_ne_nil (l := l ++ [last]) (by simp)
      have hc : c ∈ update nodes id (l ++ [last] ++ [a]) id := by
        rw [update_self, hcons]
        exact List.mem_cons_self
      have hoffset := hold.offset c (by rw [hcons]; rfl)
      have hlength := (hworld'.length_data hc).1
      rw [hcons, List.flatMap_cons, List.length_append]
      omega
    · refine hframe.comp ⟨?_, fun _ _ hget => hget⟩
      intro id' hne' b hb
      refine hother b ?_
      rintro rfl
      refine hworld'.distinct id' id hne' b ?_ hmem
      rw [update_of_ne hne']
      exact hb

/-! ## Clearing -/

theorem length_le_flatMap {f : ℕ → List UInt8} (hpos : ∀ a ∈ l, 0 < (f a).length) :
    l.length ≤ (l.flatMap f).length := by
  induction l with
  | nil => exact le_rfl
  | cons a l ih =>
    have ha := hpos a List.mem_cons_self
    have hl := ih fun b hb => hpos b (List.mem_cons_of_mem _ hb)
    rw [List.flatMap_cons, List.length_append, List.length_cons]
    omega

/-- There is a byte to be read in each message. -/
theorem Stores.length_le (hs : Stores mem db (nodes id) bytes) (hw : World mem free nodes) :
    (nodes id).length ≤ bytes.length := by
  cases hnodes : nodes id with
  | nil => exact Nat.zero_le _
  | cons a l =>
    obtain ⟨hbytes, hlength, hoffset⟩ := hs.first hw hnodes
    have hl : l.length ≤ (l.flatMap mem.data).length := by
      refine length_le_flatMap fun b hb => ?_
      obtain ⟨heq, hpos⟩ := hw.length_data (hnodes ▸ List.mem_cons_of_mem a hb : b ∈ nodes id)
      rw [heq]
      exact hpos
    rw [hbytes, List.length_append, List.length_cons]
    omega

/-- The offset is not read here, and is not set to 0 before the end. -/
theorem clearLoop_spec {rounds : ℕ} (hw : World mem free nodes)
    (hlinked : Linked mem.next db.head (nodes id)) (htail : db.tail = (nodes id).getLast?)
    (hrounds : (nodes id).length < rounds) :
    ∃ mem', db.clearLoop rounds mem = some mem' ∧
      (∃ free', World mem' free' (update nodes id [])) ∧ Frame mem mem' nodes id := by
  induction rounds generalizing db mem free nodes with
  | zero => omega
  | succ rounds ih =>
    unfold Databuffer.clearLoop
    cases hnodes : nodes id with
    | nil =>
      have hhead : db.head = none := (hnodes ▸ hlinked : Linked _ _ [])
      rw [hhead]
      refine ⟨mem, rfl, ⟨free, ?_⟩, .refl⟩
      rw [← hnodes, update_eq_self]
      exact hw
    | cons a l =>
      have ha : a ∈ nodes id := hnodes ▸ List.mem_cons_self
      have hhead : db.head = some a := (hnodes ▸ hlinked : Linked _ _ (a :: l)).1
      have hal : a ∉ l := (List.nodup_cons.mp (hnodes ▸ hw.nodup id)).1
      obtain ⟨hreturn, hrest⟩ :=
        returnMessage_eq (hnodes ▸ hlinked) (hnodes ▸ htail) hal
      rw [hnodes, List.length_cons] at hrounds
      obtain ⟨mem', hclear, ⟨free', hworld⟩, hframe⟩ := @ih _ _ _
        { db with head := mem.next a, tail := l.getLast? } (hw.release hnodes)
        (by rw [update_self]; exact hrest) (by rw [update_self])
        (by rw [update_self]; omega)
      rw [update_idem] at hworld
      refine ⟨mem', ?_, ⟨free', hworld⟩, (frame_release hw ha).trans hframe⟩
      rw [hhead]
      dsimp only
      rw [hreturn]
      exact hclear

theorem clear_spec (hs : Holds mem nodes id db bytes) :
    ∃ mem', db.clear mem = some (.init, mem') ∧ Holds mem' nodes id .init [] ∧
      Frame mem mem' nodes id := by
  obtain ⟨free, l, hw, hstores, hsize⟩ := hs
  have hlength : (update nodes id l id).length < db.size + 1 := by
    have hstores' : Stores mem db (update nodes id l id) bytes := by
      rw [update_self]
      exact hstores
    have hle := hstores'.length_le hw
    omega
  obtain ⟨mem', hclear, ⟨free', hworld⟩, hframe⟩ := @clearLoop_spec _ _ _ id db _ hw
    (by rw [update_self]; exact hstores.linked) (by rw [update_self]; exact hstores.tail) hlength
  rw [update_idem] at hworld
  refine ⟨mem', ?_, ⟨free', [], hworld, ⟨rfl, rfl, ?_, fun _ => rfl, rfl⟩, rfl⟩, hframe.of_update⟩
  · unfold Databuffer.clear
    rw [hclear]
    rfl
  · intro a ha
    cases ha

end

end SkynetEureka.ServiceGate
