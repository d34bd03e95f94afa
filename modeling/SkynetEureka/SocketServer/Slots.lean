import SkynetEureka.Lib.Interleaving

/-!
# The slots of the socket server (reserve_id in socket_server.c)

Any thread opens a socket with `reserve_id`, which counts `alloc_id` up and tries the slot of each number, and
the socket is closed by whoever has it. `alloc_id` wraps around after 2^31 calls. In every interleaving a slot
that is in use belongs to one socket (`slots_exclusive`), and a thread that is not disturbed finds a slot
whenever one is free (`reserve_alone`).
-/

namespace SkynetEureka.SocketServer.Slots

open Lib

/-- `MAX_SOCKET` -/
def maxSocket : ℕ := 2 ^ 16

/-- `HASH_ID(id)` -/
def hashId (id : ℤ) : ℕ := (id % 2 ^ 16).toNat

inductive SlotType where
  | invalid
  /-- `SOCKET_TYPE_RESERVE`, and what becomes of it until the socket is closed -/
  | reserve
  deriving DecidableEq

inductive Protocol where
  | tcp | udp | udpv6 | unknown
  deriving DecidableEq

/-- The fields of `struct socket` that `reserve_id` sets -/
structure Slot where
  type : SlotType
  id : ℤ
  protocol : Protocol
  udpconnecting : ℕ
  fd : ℤ
  deriving DecidableEq

structure Server where
  allocId : ℤ
  slot : ℕ → Slot

def Server.set (m : Server) (k : ℕ) (s : Slot) : Server :=
  { m with slot := fun j => if j = k then s else m.slot j }

/-- The next line of a thread; `i` is the counter of the loop. -/
inductive Thread where
  /-- `ATOM_INC(&(ss->alloc_id))`, if the loop goes on -/
  | inc (i : ℕ)
  /-- `ATOM_AND(&(ss->alloc_id), 0x7fffffff)`, behind a number below 0 -/
  | and (i : ℕ)
  /-- `if (s->type == SOCKET_TYPE_INVALID)` -/
  | test (i : ℕ) (id : ℤ)
  /-- `ATOM_CAS(&s->type, SOCKET_TYPE_INVALID, SOCKET_TYPE_RESERVE)` -/
  | cas (i : ℕ) (id : ℤ)
  /-- the fields of the slot are set -/
  | write (id : ℤ)
  /-- `reserve_id` has returned the id, and its socket is in use -/
  | socket (id : ℤ)
  /-- `reserve_id` has returned -1 -/
  | full
  | closed
  deriving DecidableEq

/-- The next step of a thread. A CAS that fails does not count as a round. -/
def Thread.step (m : Server) : Thread → Option (Server × Thread)
  | .inc i =>
    if i < maxSocket then
      let id := (m.allocId + 1).bmod (2 ^ 32)
      some ({ m with allocId := id }, if id < 0 then .and i else .test i id)
    else some (m, .full)
  | .and i => some ({ m with allocId := m.allocId % 2 ^ 31 }, .test i (m.allocId % 2 ^ 31))
  | .test i id => some (m, if (m.slot (hashId id)).type = .invalid then .cas i id else .inc (i + 1))
  | .cas i id =>
    let s := m.slot (hashId id)
    some (if s.type = .invalid then (m.set (hashId id) { s with type := .reserve }, .write id) else (m, .inc i))
  | .write id =>
    let s := { m.slot (hashId id) with id := id, protocol := .unknown, udpconnecting := 0, fd := -1 }
    some (m.set (hashId id) s, .socket id)
  | .socket id => some (m.set (hashId id) { m.slot (hashId id) with type := .invalid }, .closed)
  | .full | .closed => none

/-- Any number of threads calls `reserve_id`, at any time. -/
def threads : Program Server Thread where
  starts t := t == .inc 0
  next m t := (t.step m).map fun (m, t) => some (m, t, [])

/-- `socket_server_create` -/
def create (slots : ℕ → Slot) : Server := ⟨0, fun k => { slots k with type := .invalid }⟩

/-! ## The invariant -/

/-- The thread has the slot `k`. -/
def Thread.holds (k : ℕ) : Thread → ℕ
  | .write id | .socket id => if hashId id = k then 1 else 0
  | _ => 0

/-- The id that a thread works on is no negative number, and stands in the slot of its socket. -/
def Thread.Ok (m : Server) : Thread → Prop
  | .test _ id | .cas _ id | .write id => 0 ≤ id ∧ id < 2 ^ 31
  | .socket id => (0 ≤ id ∧ id < 2 ^ 31) ∧ (m.slot (hashId id)).id = id
  | _ => True

structure Inv (m : Server) (l : List Thread) : Prop where
  slots : ∀ k, total (Thread.holds k) l = if (m.slot k).type = .invalid then 0 else 1
  ids : ∀ t ∈ l, t.Ok m

variable {m m' : Server} {t t' : Thread} {l l' : List Thread} {s s' : Threads Server Thread}
  {as : List (Move Thread)} {k : ℕ} {id : ℤ} {slots : ℕ → Slot}

theorem Inv.perm (hperm : l.Perm l') (h : Inv m l) : Inv m l' where
  slots k := (total_perm hperm.symm).trans (h.slots k)
  ids t ht := h.ids t (hperm.mem_iff.mpr ht)

theorem Inv.start (h : Inv m l) (hstart : threads.starts t = true) : Inv m (t :: l) := by
  have ht : t = .inc 0 := by simpa [threads] using hstart
  subst ht
  constructor
  · intro k
    simpa [Thread.holds] using h.slots k
  · intro t ht
    rcases List.mem_cons.mp ht with rfl | ht
    · trivial
    · exact h.ids t ht

theorem holds_le (ht : t ∈ l) : t.holds k ≤ total (Thread.holds k) l :=
  List.single_le_sum (fun _ _ => Nat.zero_le _) _ (List.mem_map_of_mem ht)

/-- The ids of other threads stay right when a slot is set that none of them has. -/
theorem Thread.Ok.set {slot : Slot} (h : t.Ok m) (hfree : t.holds k = 0) : t.Ok (m.set k slot) := by
  cases t with
  | socket id =>
    obtain ⟨hrange, hid⟩ := h
    have hne : hashId id ≠ k := by simpa [Thread.holds] using hfree
    exact ⟨hrange, by simpa [Server.set, hne] using hid⟩
  | inc | and | test | cas | write | full | closed => exact h

/-- A thread that has no slot takes a step that leaves the slots as they are. -/
theorem Inv.move (h : Inv m (t :: l)) (hslot : m'.slot = m.slot) (ht : ∀ k, t.holds k = 0)
    (ht' : ∀ k, t'.holds k = 0) (hok : t'.Ok m') : Inv m' (t' :: l) where
  slots k := by
    have := h.slots k
    rw [total_cons, ht] at this
    rw [total_cons, ht', hslot, this]
  ids u hu := by
    rcases List.mem_cons.mp hu with rfl | hu
    · exact hok
    · have hu' := h.ids u (List.mem_cons_of_mem t hu)
      cases u with
      | socket id => exact ⟨hu'.1, by rw [hslot]; exact hu'.2⟩
      | inc | and | test | cas | write | full | closed => exact hu'

/-- A step of a thread on the slot `k`, which no other thread has afterwards -/
theorem Inv.set {slot : Slot} (h : Inv m (t :: l)) (hfree : total (Thread.holds k) l = 0)
    (hother : ∀ j ≠ k, t'.holds j = t.holds j)
    (hholds : t'.holds k = if slot.type = .invalid then 0 else 1) (hok : t'.Ok (m.set k slot)) :
    Inv (m.set k slot) (t' :: l) where
  slots j := by
    by_cases hj : j = k
    · subst hj
      simp [hfree, hholds, Server.set]
    · have := h.slots j
      rw [total_cons] at this
      simp [hother j hj, this, Server.set, hj]
  ids u hu := by
    rcases List.mem_cons.mp hu with rfl | hu
    · exact hok
    · have hzero : u.holds k = 0 := Nat.le_zero.mp (hfree ▸ holds_le hu)
      exact (h.ids u (List.mem_cons_of_mem t hu)).set hzero

/-- **One step.** -/
theorem Inv.step (h : Inv m (t :: l)) (hstep : t.step m = some (m', t')) : Inv m' (t' :: l) := by
  have hok := h.ids t List.mem_cons_self
  cases t with
  | inc i =>
    simp only [Thread.step] at hstep
    split at hstep <;> cases hstep
    · have hlow := Int.le_bmod (x := m.allocId + 1) (m := 2 ^ 32) (by decide)
      have hhigh := Int.bmod_lt (x := m.allocId + 1) (m := 2 ^ 32) (by decide)
      split
      · exact h.move rfl (fun _ => rfl) (fun _ => rfl) trivial
      · exact h.move rfl (fun _ => rfl) (fun _ => rfl) ⟨by omega, by norm_num at hhigh ⊢; omega⟩
    · exact h.move rfl (fun _ => rfl) (fun _ => rfl) trivial
  | and i =>
    cases hstep
    exact h.move rfl (fun _ => rfl) (fun _ => rfl) ⟨by omega, by omega⟩
  | test i id =>
    simp only [Thread.step, Option.some.injEq, Prod.mk.injEq] at hstep
    obtain ⟨rfl, rfl⟩ := hstep
    split
    · exact h.move rfl (fun _ => rfl) (fun _ => rfl) hok
    · exact h.move rfl (fun _ => rfl) (fun _ => rfl) trivial
  | cas i id =>
    simp only [Thread.step, Option.some.injEq] at hstep
    split at hstep
    case isTrue hinvalid =>
      cases hstep
      -- the slot is free, so no thread has it
      have hslots := h.slots (hashId id)
      rw [hinvalid, if_pos rfl, total_cons] at hslots
      exact h.set (by omega) (fun j hj => by simp [Thread.holds, hj.symm]) (by simp [Thread.holds]) hok
    case isFalse =>
      cases hstep
      exact h.move rfl (fun _ => rfl) (fun _ => rfl) trivial
  | write id =>
    cases hstep
    -- this thread has the slot, and is the only one
    have hslots := h.slots (hashId id)
    simp only [total_cons, Thread.holds, if_true] at hslots
    split at hslots
    case isTrue => omega
    case isFalse hused =>
      exact h.set (by omega) (fun j _ => rfl) (by simp [Thread.holds, hused]) ⟨hok, by simp [Server.set]⟩
  | socket id =>
    cases hstep
    have hslots := h.slots (hashId id)
    simp only [total_cons, Thread.holds, if_true] at hslots
    split at hslots
    · omega
    · exact h.set (by omega) (fun j hj => by simp [Thread.holds, hj.symm]) (by simp [Thread.holds]) trivial
  | full | closed => cases hstep

theorem Inv.run (hrun : run threads.step ⟨create slots, [], false⟩ as = some s) :
    s.fault = false ∧ Inv s.mem s.threads := by
  have hok : Guarded threads.step (Meets fun _ _ _ => True) ⟨create slots, [], false⟩ as :=
    guarded_of_forall fun s a => by cases a <;> simp [Meets]
  have hinit : Inv (create slots) [] := ⟨fun k => by simp [create], by simp⟩
  refine Program.run_safe (fun _ _ _ hperm h => h.perm hperm) (fun _ _ _ h ht => h.start ht) ?_
    ⟨rfl, hinit⟩ hok hrun
  intro m t l r h _ hr
  obtain ⟨⟨m', t'⟩, hstep, rfl⟩ := Option.map_eq_some_iff.mp hr
  exact ⟨m', t', [], rfl, h.step hstep⟩

/-- In every interleaving, a slot is in use if and only if one thread has it, and no two have it; every id that
`reserve_id` returned is a number from 0 to 2^31 - 1, which stands in its slot while the socket is in use; and
the sockets in use have different slots. -/
theorem slots_exclusive (hrun : run threads.step ⟨create slots, [], false⟩ as = some s) :
    (∀ k, total (Thread.holds k) s.threads = if (s.mem.slot k).type = .invalid then 0 else 1) ∧
    (∀ id, Thread.socket id ∈ s.threads → 0 ≤ id ∧ id < 2 ^ 31 ∧ (s.mem.slot (hashId id)).type = .reserve ∧
      (s.mem.slot (hashId id)).id = id) ∧
    ∀ (i j : ℕ) (id id' : ℤ), i ≠ j → s.threads[i]? = some (Thread.socket id) →
      s.threads[j]? = some (Thread.socket id') →
      hashId id ≠ hashId id' := by
  obtain ⟨-, hinv⟩ := Inv.run hrun
  refine ⟨hinv.slots, fun id hid => ?_, fun i j id id' hij hi hj heq => ?_⟩
  · obtain ⟨⟨hlow, hhigh⟩, hslot⟩ := hinv.ids _ hid
    have hone : 1 ≤ total (Thread.holds (hashId id)) s.threads := by
      simpa [Thread.holds] using holds_le (k := hashId id) hid
    rw [hinv.slots] at hone
    refine ⟨hlow, hhigh, ?_, hslot⟩
    cases htype : (s.mem.slot (hashId id)).type with
    | invalid => rw [htype, if_pos rfl] at hone; omega
    | reserve => rfl
  · -- the first of the two, and the second among the others
    have hfront := hinv.perm (perm_cons_eraseIdx hi)
    have hslots := hfront.slots (hashId id)
    have hmem : Thread.socket id' ∈ s.threads.eraseIdx i := by
      rw [List.mem_eraseIdx_iff_getElem?]
      exact ⟨j, hij.symm, hj⟩
    have hle := holds_le (k := hashId id) hmem
    simp only [total_cons, Thread.holds, heq, if_true] at hslots hle
    split at hslots <;> omega

/-- Two threads open a socket, and one of them is closed while the other one is opened. -/
theorem slots_exclusive_two : ∃ s, run threads.step ⟨create fun _ => ⟨.reserve, 0, .tcp, 0, 0⟩, [], false⟩
      [.start (.inc 0), .start (.inc 0), .go 0, .go 1, .go 0, .go 0, .go 0, .go 1, .go 0, .go 1, .go 1] = some s ∧
    ∀ id, Thread.socket id ∈ s.threads → (s.mem.slot (hashId id)).id = id := by
  obtain ⟨s, hs⟩ : ∃ s, run threads.step ⟨create fun _ => ⟨.reserve, 0, .tcp, 0, 0⟩, [], false⟩
      [.start (.inc 0), .start (.inc 0), .go 0, .go 1, .go 0, .go 0, .go 0, .go 1, .go 0, .go 1, .go 1] = some s :=
    ⟨_, rfl⟩
  exact ⟨s, hs, fun id hid => ((slots_exclusive hs).2.1 id hid).2.2.2⟩

/-! ## A thread alone -/

/-- Steps of one thread alone -/
def alone : ℕ → Server × Thread → Option (Server × Thread)
  | 0, x => some x
  | n + 1, x => (x.2.step x.1).bind (alone n)

variable {n i : ℕ} {x y : Server × Thread}

theorem alone_append (k : ℕ) (h : alone n x = some y) : alone (n + k) x = alone k y := by
  induction n generalizing x with
  | zero =>
    cases h
    rw [Nat.zero_add]
  | succ n ih =>
    obtain ⟨z, hz, hrest⟩ := Option.bind_eq_some_iff.mp h
    rw [Nat.succ_add, alone, hz, Option.bind_some, ih hrest]

theorem run_alone (hfault : s.fault = false) (hi : s.threads[i]? = some t)
    (h : alone n (s.mem, t) = some (m', t')) :
    run threads.step s (List.replicate n (.go i)) = some ⟨m', s.threads.set i t', false⟩ := by
  induction n generalizing s t with
  | zero =>
    cases h
    obtain ⟨mem, l, fault⟩ := s
    obtain ⟨hlt, rfl⟩ := List.getElem?_eq_some_iff.mp hi
    cases hfault
    simp
  | succ n ih =>
    obtain ⟨⟨m₁, t₁⟩, hstep, hrest⟩ := Option.bind_eq_some_iff.mp h
    have hnext : threads.next s.mem t = some (some (m₁, t₁, [])) := by
      simp [threads, hstep]
    obtain ⟨hgo, -⟩ := Program.step_go (Thread.holds 0) hfault hi hnext
    obtain ⟨hlt, -⟩ := List.getElem?_eq_some_iff.mp hi
    rw [List.append_nil] at hgo
    rw [List.replicate_succ, run_cons_of_eq_some hgo]
    have := ih (s := ⟨m₁, s.threads.set i t₁, false⟩) rfl (by simp [hlt]) hrest
    simpa using this

/-- The number that is tried next -/
theorem alone_number (hi : i < maxSocket) : ∃ n m' id, alone n (m, .inc i) = some (m', .test i id) ∧
    m'.slot = m.slot ∧ m'.allocId = id ∧ id % 2 ^ 16 = (m.allocId + 1) % 2 ^ 16 := by
  have hmod : (m.allocId + 1).bmod (2 ^ 32) % 2 ^ 16 = (m.allocId + 1) % 2 ^ 16 := by
    have hbmod := Int.bmod_emod (x := m.allocId + 1) (m := 2 ^ 32)
    norm_num at hbmod ⊢
    omega
  -- behind an overflow the number is cut to 31 bits, which leaves the slot as it is
  by_cases hneg : (m.allocId + 1).bmod (2 ^ 32) < 0
  · have hinc : (Thread.inc i).step m = some ({ m with allocId := (m.allocId + 1).bmod (2 ^ 32) }, .and i) := by
      simp only [Thread.step]
      rw [if_pos hi, if_pos hneg]
    refine ⟨2, { m with allocId := (m.allocId + 1).bmod (2 ^ 32) % 2 ^ 31 }, (m.allocId + 1).bmod (2 ^ 32) % 2 ^ 31,
      ?_, rfl, rfl, by omega⟩
    rw [alone, hinc]
    rfl
  · have hinc : (Thread.inc i).step m =
        some ({ m with allocId := (m.allocId + 1).bmod (2 ^ 32) }, .test i ((m.allocId + 1).bmod (2 ^ 32))) := by
      simp only [Thread.step]
      rw [if_pos hi, if_neg hneg]
    refine ⟨1, { m with allocId := (m.allocId + 1).bmod (2 ^ 32) }, (m.allocId + 1).bmod (2 ^ 32), ?_, rfl, rfl, hmod⟩
    rw [alone, hinc]
    rfl

theorem hashId_congr {a b : ℤ} (h : a % 2 ^ 16 = b % 2 ^ 16) : hashId a = hashId b := by
  rw [hashId, hashId, h]

/-- A round that meets a slot in use -/
theorem alone_round (hi : i < maxSocket) (hused : (m.slot (hashId (m.allocId + 1))).type ≠ .invalid) :
    ∃ n m', alone n (m, .inc i) = some (m', .inc (i + 1)) ∧ m'.slot = m.slot ∧
      m'.allocId % 2 ^ 16 = (m.allocId + 1) % 2 ^ 16 := by
  obtain ⟨n, m', id, hnumber, hslot, hid, hmod⟩ := alone_number (m := m) hi
  refine ⟨n + 1, m', ?_, hslot, by rw [hid, hmod]⟩
  rw [← hashId_congr hmod, ← hslot] at hused
  rw [alone_append 1 hnumber]
  simp [alone, Thread.step, hused]

/-- A round that meets a free slot -/
theorem alone_found (hi : i < maxSocket) (hfree : (m.slot (hashId (m.allocId + 1))).type = .invalid) :
    ∃ n m' id, alone n (m, .inc i) = some (m', .socket id) ∧ hashId id = hashId (m.allocId + 1) := by
  obtain ⟨n, m', id, hnumber, hslot, -, hmod⟩ := alone_number (m := m) hi
  rw [← hashId_congr hmod, ← hslot] at hfree
  have htest : (Thread.test i id).step m' = some (m', .cas i id) := by
    simp only [Thread.step, hfree, if_true]
  have hcas : (Thread.cas i id).step m' =
      some (m'.set (hashId id) { m'.slot (hashId id) with type := .reserve }, .write id) := by
    simp only [Thread.step, hfree, if_true]
  obtain ⟨m₃, hthree⟩ : ∃ m₃, alone 3 (m', .test i id) = some (m₃, .socket id) := by
    rw [alone, htest, Option.bind_some, alone, hcas]
    exact ⟨_, rfl⟩
  exact ⟨n + 3, m₃, id, (alone_append 3 hnumber).trans hthree, hashId_congr hmod⟩

theorem alone_rounds (n : ℕ) (hn : n ≤ maxSocket)
    (hused : ∀ j < n, (m.slot (hashId (m.allocId + 1 + j))).type ≠ .invalid) :
    ∃ k m', alone k (m, .inc 0) = some (m', .inc n) ∧ m'.slot = m.slot ∧
      m'.allocId % 2 ^ 16 = (m.allocId + n) % 2 ^ 16 := by
  induction n with
  | zero => exact ⟨0, m, rfl, rfl, by rw [Nat.cast_zero, add_zero]⟩
  | succ n ih =>
    obtain ⟨k, m₁, hrounds, hslot, halloc⟩ := ih (by omega) fun j hj => hused j (by omega)
    have hhash : hashId (m₁.allocId + 1) = hashId (m.allocId + 1 + n) := hashId_congr (by omega)
    obtain ⟨k', m₂, hround, hslot', halloc'⟩ := alone_round (m := m₁) (i := n) (by omega)
      (by rw [hhash, hslot]; exact hused n (Nat.lt_succ_self n))
    refine ⟨k + k', m₂, (alone_append k' hrounds).trans hround, hslot'.trans hslot, ?_⟩
    push_cast
    omega

/-- A call of `reserve_id` that is not disturbed ends; it returns -1 only when all slots are in use, and else an
id whose slot was free, also where `alloc_id` wraps around. -/
theorem reserve_alone (hfault : s.fault = false) (hi : s.threads[i]? = some (.inc 0)) :
    ∃ n s', run threads.step s (List.replicate n (.go i)) = some s' ∧
      (s'.threads[i]? = some .full ∧ (∀ k < maxSocket, (s.mem.slot k).type ≠ .invalid) ∨
        ∃ id, s'.threads[i]? = some (.socket id) ∧ (s.mem.slot (hashId id)).type = .invalid) := by
  obtain ⟨hlt, -⟩ := List.getElem?_eq_some_iff.mp hi
  by_cases hall : ∀ j < maxSocket, (s.mem.slot (hashId (s.mem.allocId + 1 + j))).type ≠ .invalid
  · obtain ⟨n, m', hrounds, -, -⟩ := alone_rounds maxSocket le_rfl hall
    have hfull : alone (n + 1) (s.mem, .inc 0) = some (m', .full) := by
      rw [alone_append 1 hrounds]
      simp [alone, Thread.step]
    refine ⟨n + 1, _, run_alone hfault hi hfull, .inl ⟨by simp [hlt], fun k hk => ?_⟩⟩
    -- the numbers of the rounds have every remainder
    obtain ⟨j, hj, hhash⟩ : ∃ j < maxSocket, hashId (s.mem.allocId + 1 + j) = k := by
      refine ⟨((k - s.mem.allocId - 1) % 2 ^ 16).toNat, ?_, ?_⟩
      · unfold maxSocket
        omega
      · unfold maxSocket at hk
        unfold hashId
        omega
    exact hhash ▸ hall j hj
  · simp only [ne_eq, not_forall, not_not, exists_prop] at hall
    classical
    -- the rounds go on up to the first number whose slot is free
    obtain ⟨hn, hfree⟩ := Nat.find_spec hall
    obtain ⟨k, m₁, hrounds, hslot, halloc⟩ := alone_rounds (m := s.mem) (Nat.find hall) hn.le
      fun j hj hinvalid => Nat.find_min hall hj ⟨by omega, hinvalid⟩
    have hhash : hashId (m₁.allocId + 1) = hashId (s.mem.allocId + 1 + (Nat.find hall : ℕ)) :=
      hashId_congr (by omega)
    obtain ⟨k', m₂, id, hfound, hid⟩ := alone_found (m := m₁) hn (by rw [hhash, hslot]; exact hfree)
    refine ⟨k + k', _, run_alone hfault hi ((alone_append k' hrounds).trans hfound), .inr ⟨id, by simp [hlt], ?_⟩⟩
    rw [hid, hhash]
    exact hfree

/-- A call that meets the highest number -/
theorem reserve_alone_wraps : ∃ n s',
    run threads.step ⟨⟨2 ^ 31 - 1, (create fun _ => ⟨.reserve, 0, .tcp, 0, 0⟩).slot⟩, [.inc 0], false⟩
      (List.replicate n (.go 0)) = some s' ∧ ∃ id, s'.threads[0]? = some (Thread.socket id) := by
  obtain ⟨n, s', hrun, ⟨-, hused⟩ | ⟨id, hid, -⟩⟩ := reserve_alone (i := 0)
    (s := ⟨⟨2 ^ 31 - 1, (create fun _ => ⟨.reserve, 0, .tcp, 0, 0⟩).slot⟩, [.inc 0], false⟩) rfl rfl
  · exact absurd rfl (hused 0 (by decide))
  · exact ⟨n, s', hrun, id, hid⟩

end SkynetEureka.SocketServer.Slots
