import SkynetEureka.SocketServer.Output

/-!
# Where a package is

A package is in one place: the call that carries it, the pipe, a list, `dw_buffer`, or it was sent or freed.
The counter of the commands and the lock are accounted for in the same way. These counts hold of every
state, also while the socket is closed and afterwards.
-/

namespace SkynetEureka.SocketServer

open Lib

/-! ## The packages of a socket -/

def Command.package : Command → Option Package
  | .send p => some p
  | .close _ => none

@[simp] theorem package_send (p : Package) : (Command.send p).package = some p := rfl

@[simp] theorem package_close (shutdown : Bool) : (Command.close shutdown).package = none := rfl

/-- The buffers in the order in which they are sent -/
def Socket.line (m : Socket) : List Buffer :=
  m.writing.toList ++ m.dwBuffer.toList ++ m.high ++ m.low

/-- The packages of the commands in the pipe -/
def Socket.commands (m : Socket) : List Package := m.pipe.filterMap Command.package

def Socket.packages (m : Socket) : List Package :=
  m.sent ++ m.line.map Buffer.package ++ m.commands ++ m.freed

/-- 1 when the two are the same -/
def same (i id : ℕ) : ℕ := if i = id then 1 else 0

/-- How often the package of a call is there -/
def copies (id : ℕ) (packages : List Package) : ℕ := (packages.map fun p => same p.id id).sum

/-- The calls that have begun -/
def issued (next id : ℕ) : ℕ := if id < next then 1 else 0

section Copies

variable {id : ℕ} {p : Package} {l l' : List Package}

@[simp] theorem copies_nil : copies id [] = 0 := rfl

@[simp] theorem copies_cons : copies id (p :: l) = same p.id id + copies id l := by simp [copies]

@[simp] theorem copies_append : copies id (l ++ l') = copies id l + copies id l' := by simp [copies]

theorem issued_succ (next id : ℕ) : issued (next + 1) id = issued next id + same next id := by
  grind [issued, same]

@[simp] theorem count_singleton_same (i id : ℕ) : [i].count id = same i id := by
  grind [same]

theorem copies_pos (h : p ∈ l) : 0 < copies p.id l := by
  induction l with
  | nil => simp at h
  | cons q l ih =>
    rw [copies_cons]
    rcases List.mem_cons.mp h with rfl | h
    · simp [same]
    · have := ih h
      omega

theorem nodup_of_copies (h : ∀ id, copies id l ≤ 1) : (l.map Package.id).Nodup := by
  induction l with
  | nil => simp
  | cons p l ih =>
    simp only [List.map_cons, List.nodup_cons]
    constructor
    · intro hmem
      obtain ⟨q, hq, heq⟩ := List.mem_map.mp hmem
      have hpos := copies_pos hq
      have := h p.id
      rw [copies_cons, ← heq] at this
      simp [same] at this
      omega
    · apply ih
      intro id
      have := h id
      rw [copies_cons] at this
      omega

end Copies

/-! ## What a thread has -/

/-- The package that a call carries -/
def Thread.package : Thread → Option Package
  | .check _ _ p _ | .trylock p _ | .write p _ | .giveUp p | .count p | .request p => some p
  | _ => none

/-- The call that has not returned -/
def Thread.call : Thread → Option ℕ
  | .park id | .arm id | .unlock id => some id
  | t => t.package.map Package.id

def Thread.owns (id : ℕ) (t : Thread) : ℕ := copies id t.package.toList

def Thread.calls (id : ℕ) (t : Thread) : ℕ := t.call.elim 0 fun i => same i id

/-- The lock -/
def Thread.holds : Thread → ℕ
  | .check again _ _ _ => again.toNat
  | .write _ _ | .park _ | .arm _ | .unlock _ | .giveUp _ => 1
  | .socket phase _ =>
    match phase with
    | .move _ _ | .list _ _ _ | .pop _ _ _ | .after _ _ _ | .last _ | .unlock _ => 1
    | .free locked => locked.toNat
    | .invalid | .unlockClosed => 1
    | _ => 0
  | _ => 0

/-- A command that is counted in `s->sending` and is not in the pipe -/
def Thread.counted : Thread → ℕ
  | .request _ => 1
  | .socket .dec _ => 1
  | _ => 0

def Thread.isSocket : Thread → ℕ
  | .socket _ _ => 1
  | _ => 0

/-- A buffer that is written, and not yet in `dw_buffer` -/
def Thread.parks : Thread → ℕ
  | .park _ => 1
  | _ => 0

/-- A caller that has seen, under the lock, that `dw_buffer` is empty, until it fills it -/
def Thread.direct : Thread → Bool
  | .check true .sending _ _ | .check true .type _ _ | .write _ _ | .park _ => true
  | _ => false

structure Counts (m : Socket) (l : List Thread) : Prop where
  call : ∀ id, total (Thread.calls id) l + m.returned.count id = issued m.next id
  place : ∀ id, total (Thread.owns id) l + copies id m.packages = issued m.next id
  lock : m.dwLock.toNat = total Thread.holds l
  socket : total Thread.isSocket l ≤ 1
  sending : m.sending = m.commands.length + total Thread.counted l
  /-- A package was made from calls that have returned. -/
  seen : ∀ p ∈ m.packages, ∀ i ∈ p.seen, i ∈ m.returned
  carried : ∀ t ∈ l, ∀ p, t.package = some p → ∀ i ∈ p.seen, i ∈ m.returned
  writing : m.writing.isSome.toNat = total Thread.parks l
  direct : ∀ t ∈ l, t.direct = true → m.dwBuffer = none

variable {m m' : Socket} {t t' : Thread} {l l' : List Thread}

theorem Counts.perm (hperm : l.Perm l') (h : Counts m l) : Counts m l' := by
  have hf : ∀ f : Thread → ℕ, total f l' = total f l := fun f => (total_perm hperm).symm
  constructor
  · intro id
    rw [hf]
    exact h.call id
  · intro id
    rw [hf]
    exact h.place id
  · rw [hf]
    exact h.lock
  · rw [hf]
    exact h.socket
  · rw [hf]
    exact h.sending
  · exact h.seen
  · intro t ht
    exact h.carried t (hperm.mem_iff.mpr ht)
  · rw [hf]
    exact h.writing
  · intro t ht
    exact h.direct t (hperm.mem_iff.mpr ht)

theorem Thread.holds_of_direct (h : t.direct = true) : t.holds = 1 := by
  unfold Thread.direct at h
  split at h <;> simp [Thread.holds] at h ⊢

/-- Two threads do not have the lock. -/
theorem Counts.alone (h : Counts m (t :: l)) (hold : t.holds = 1) : total Thread.holds l = 0 := by
  have hlock := h.lock
  have hone := m.dwLock.toNat_le
  rw [total_cons] at hlock
  omega

theorem Counts.locked (h : Counts m (t :: l)) (hold : t.holds = 1) : m.dwLock = true := by
  have hlock := h.lock
  rw [total_cons] at hlock
  cases hb : m.dwLock with
  | true => rfl
  | false =>
    rw [hb] at hlock
    simp at hlock
    omega

theorem holds_eq_zero {u : Thread} (h : total Thread.holds l = 0) (hu : u ∈ l) : u.holds = 0 := by
  obtain ⟨l₁, l₂, rfl⟩ := List.append_of_mem hu
  simp at h
  omega

/-- **The rule of the counts.** What a step takes from a thread it puts into the memory, and the other way. -/
theorem Counts.goes (h : Counts m (t :: l))
    (hcall : ∀ id, t'.calls id + m'.returned.count id = t.calls id + m.returned.count id)
    (hplace : ∀ id, t'.owns id + copies id m'.packages = t.owns id + copies id m.packages)
    (hlock : m'.dwLock.toNat + t.holds = m.dwLock.toNat + t'.holds)
    (hsending : m'.sending + m.commands.length + t.counted =
      m.sending + m'.commands.length + t'.counted)
    (hnext : m'.next = m.next) (hsocket : t'.isSocket ≤ t.isSocket)
    (hpackages : ∀ p ∈ m'.packages, p ∈ m.packages ∨ t.package = some p)
    (hcarried : ∀ p, t'.package = some p → t.package = some p)
    (hreturned : ∀ i ∈ m.returned, i ∈ m'.returned)
    (hwriting : m'.writing.isSome.toNat + t.parks = m.writing.isSome.toNat + t'.parks)
    (hdw : m'.dwBuffer = m.dwBuffer ∨ m'.dwBuffer = none ∨ t.holds = 1)
    (hdirect : t'.direct = true → m'.dwBuffer = none) : Counts m' (t' :: l) := by
  have halone := h.alone
  obtain ⟨hcall₀, hplace₀, hlock₀, hsocket₀, hsending₀, hseen₀, hcarried₀, hwriting₀, hdirect₀⟩ := h
  simp only [total_cons] at *
  constructor
  · intro id
    have := hcall₀ id
    have := hcall id
    rw [hnext, total_cons]
    omega
  · intro id
    have := hplace₀ id
    have := hplace id
    rw [hnext, total_cons]
    omega
  · rw [total_cons]
    omega
  · rw [total_cons]
    omega
  · rw [total_cons]
    omega
  · intro p hp i hi
    apply hreturned
    rcases hpackages p hp with hp | hp
    · exact hseen₀ p hp i hi
    · exact hcarried₀ t (by simp) p hp i hi
  · intro u hu p hp i hi
    apply hreturned
    rcases List.mem_cons.mp hu with rfl | hu
    · exact hcarried₀ t (by simp) p (hcarried p hp) i hi
    · exact hcarried₀ u (by simp [hu]) p hp i hi
  · rw [total_cons]
    omega
  · intro u hu hd
    rcases List.mem_cons.mp hu with rfl | hu
    · exact hdirect hd
    · rcases hdw with hsame | hnone | hold
      · rw [hsame]
        exact hdirect₀ u (by simp [hu]) hd
      · exact hnone
      · have hzero := holds_eq_zero (halone hold) hu
        rw [Thread.holds_of_direct hd] at hzero
        cases hzero

/-- Nobody else writes to the descriptor while a thread has the lock. -/
theorem Counts.writing_none (h : Counts m (t :: l)) (hold : t.holds = 1) (hparks : t.parks = 0) :
    m.writing = none := by
  have hwriting := h.writing
  have hle : total Thread.parks l ≤ total Thread.holds l := by
    apply total_mono
    intro u _
    cases u <;> simp [Thread.parks, Thread.holds]
  have := h.alone hold
  rw [total_cons] at hwriting
  cases hw : m.writing with
  | none => rfl
  | some b =>
    rw [hw] at hwriting
    simp at hwriting
    omega

theorem Counts.writing_some (h : Counts m (t :: l)) (hparks : t.parks = 1) : ∃ b, m.writing = some b := by
  have hwriting := h.writing
  rw [total_cons] at hwriting
  cases hw : m.writing with
  | some b => exact ⟨b, rfl⟩
  | none =>
    rw [hw] at hwriting
    simp at hwriting
    omega

/-- A call that is carried has not returned. -/
theorem Counts.not_returned (h : Counts m l) {p : Package} (ht : t ∈ l) (hp : t.package = some p) :
    p.id ∉ m.returned := by
  intro hmem
  have hcall := h.call p.id
  have hcount := List.count_pos_iff.mpr hmem
  have hpos : 0 < total (Thread.calls p.id) l := by
    obtain ⟨l₁, l₂, rfl⟩ := List.append_of_mem ht
    have hone : t.calls p.id = 1 := by
      cases t <;> simp_all [Thread.package, Thread.calls, Thread.call, same]
    simp [hone]
  have hissued : issued m.next p.id ≤ 1 := by
    unfold issued
    split <;> omega
  omega

/-! ## Steps -/

section Steps

variable {r : Result} {events : List Event} {phase : Phase}

/-- `write` is recorded in one of two places. -/
theorem write_eq (m : Socket) (bytes : List UInt8) :
    ∃ out late, m.write bytes = { m with out := out, late := late } := by
  unfold Socket.write
  split
  · exact ⟨m.out, _, rfl⟩
  · exact ⟨_, m.late, rfl⟩

theorem done_eq (m : Socket) (p : Package) :
    ∃ sent freed, m.done p = { m with sent := sent, freed := freed } ∧
      (∀ id, copies id sent + copies id freed = copies id m.sent + copies id m.freed + same p.id id) ∧
      ∀ q, q ∈ sent ∨ q ∈ freed → q ∈ m.sent ∨ q ∈ m.freed ∨ q = p := by
  unfold Socket.done
  split
  · refine ⟨m.sent, _, rfl, fun id => ?_, fun q => ?_⟩
    · simp [Nat.add_assoc]
    · simp
  · refine ⟨_, m.freed, rfl, fun id => ?_, fun q => ?_⟩
    · simp
      omega
    · simp
      tauto

/-- What a turn of `send_list_tcp` does: the list is left, or the socket is closed, or some bytes are taken. -/
theorem sendListTcp_cases (m : Socket) (low : Bool) (shutdown : Option Bool) (writes : List Written) :
    (∃ ws, sendListTcp m low shutdown writes = (m, .after low shutdown ws)) ∨
      sendListTcp m low shutdown writes = (m, .free true) ∨
      ∃ b bs n ws, m.list low = b :: bs ∧ n ≤ b.sz ∧ sendListTcp m low shutdown writes =
        ({ m.write (b.rest.take n) with wbSize := m.wbSize - n }.setList low (⟨b.package, b.offset + n⟩ :: bs),
          if n = b.sz then .pop low shutdown ws else .after low shutdown ws) := by
  unfold sendListTcp
  split
  · exact .inl ⟨_, rfl⟩
  · exact .inl ⟨_, rfl⟩
  · exact .inl ⟨_, rfl⟩
  · exact .inr (.inl rfl)
  · exact .inr (.inr ⟨_, _, _, _, by assumption, Nat.min_le_right _ _, rfl⟩)

/-- A thread of which only the place in the code changes -/
theorem Counts.quiet (h : Counts m (t :: l)) (hcall : t'.call = t.call) (hpackage : t'.package = t.package)
    (hholds : t'.holds = t.holds) (hcounted : t'.counted = t.counted)
    (hsocket : t'.isSocket ≤ t.isSocket) (hparks : t'.parks = t.parks)
    (hdirect : t'.direct = true → m.dwBuffer = none) : Counts m (t' :: l) := by
  apply h.goes _ _ _ _ rfl hsocket (fun p hp => .inl hp) (by simp [hpackage]) (fun i hi => hi) _
    (.inl rfl) hdirect
  · simp [Thread.calls, hcall]
  · simp [Thread.owns, hpackage]
  · rw [hholds]
  · rw [hcounted]
  · rw [hparks]

set_option linter.unusedSimpArgs false

attribute [local simp] Thread.calls Thread.call Thread.package Thread.owns Thread.holds Thread.counted
  Thread.isSocket Thread.parks Thread.direct Socket.packages Socket.line Socket.commands Socket.return

/-- A call begins, with a number that no call had. -/
theorem Counts.issue {high : Bool} {bytes : List UInt8} {n : ℕ}
    (h : Counts m (.send high bytes n :: l)) :
    Counts { m with next := m.next + 1 } (.count ⟨m.next, m.returned, high, bytes⟩ :: l) := by
  obtain ⟨hcall, hplace, hlock, hsocket, hsending, hseen, hcarried, hwriting, hdirect⟩ := h
  constructor
  · intro id
    have := hcall id
    simp [issued_succ] at this ⊢
    omega
  · intro id
    have := hplace id
    simp [issued_succ] at this ⊢
    omega
  · simpa using hlock
  · simpa using hsocket
  · simpa using hsending
  · exact hseen
  · intro u hu q hq i hi
    rcases List.mem_cons.mp hu with rfl | hu
    · cases hq
      exact hi
    · exact hcarried u (by simp [hu]) q hq i hi
  · simpa using hwriting
  · intro u hu hd
    rcases List.mem_cons.mp hu with rfl | hu
    · cases hd
    · exact hdirect u (by simp [hu]) hd

/-- **A step of a call.** -/
theorem Counts.call_step (h : Counts m (t :: l)) (ht : t.isSocket = 0) (hstep : t.step m = some r) :
    ∃ m' t', r = some (m', t') ∧ Counts m' (t' :: l) := by
  cases t with
  | send high bytes n =>
    simp only [Thread.step] at hstep
    cases hstep
    split <;> refine ⟨_, _, rfl, ?_⟩
    · apply h.issue.goes <;> simp_all [Socket.free] <;> grind
    · cases high
      · exact h.issue
      · exact h.issue.quiet rfl rfl rfl rfl (le_refl _) rfl (fun hd => nomatch hd)
  | check again field p n =>
    have hidle := h.direct _ (List.mem_cons_self ..)
    cases hstep
    refine ⟨m, _, rfl, ?_⟩
    cases again <;> cases field <;> simp only [Field.next] <;> split <;>
      apply h.quiet <;> simp_all [Field.idle]
  | trylock p n =>
    simp only [Thread.step] at hstep
    split at hstep <;> cases hstep <;> refine ⟨_, _, rfl, ?_⟩
    · apply h.quiet <;> simp
    · apply h.goes <;> simp_all
  | write p n =>
    have hidle := h.direct _ (List.mem_cons_self ..) rfl
    have hnone := h.writing_none rfl rfl
    obtain ⟨out, late, hwrite⟩ := write_eq m (p.bytes.take (min n p.bytes.length))
    simp only [Thread.step, hwrite] at hstep
    split at hstep <;> cases hstep <;> refine ⟨_, _, rfl, ?_⟩
    · obtain ⟨sent, freed, hdone, hcopies, hmem⟩ := done_eq { m with out := out, late := late } p
      rw [hdone]
      apply h.goes <;> simp_all <;> grind
    · apply h.goes <;> simp_all <;> grind
  | park id =>
    have hidle := h.direct _ (List.mem_cons_self ..) rfl
    obtain ⟨b, hb⟩ := h.writing_some rfl
    cases hstep
    refine ⟨_, _, rfl, ?_⟩
    apply h.goes <;> simp_all
  | arm id =>
    cases hstep
    refine ⟨_, _, rfl, ?_⟩
    apply h.goes <;> simp_all
  | unlock id =>
    have hlocked := h.locked rfl
    cases hstep
    refine ⟨_, _, rfl, ?_⟩
    apply h.goes <;> simp_all [Nat.add_comm]
  | giveUp p =>
    have hlocked := h.locked rfl
    cases hstep
    refine ⟨_, _, rfl, ?_⟩
    apply h.goes <;> simp_all
  | count p =>
    simp only [Thread.step] at hstep
    split at hstep <;> cases hstep
    refine ⟨_, _, rfl, ?_⟩
    apply h.goes <;> simp_all
    grind
  | request p =>
    cases hstep
    refine ⟨_, _, rfl, ?_⟩
    apply h.goes <;> simp_all <;> grind
  | close shutdown =>
    cases hstep
    refine ⟨_, _, rfl, ?_⟩
    apply h.goes <;> simp_all [List.filterMap_cons]
  | socket phase events => simp [Thread.isSocket] at ht
  | ended => cases hstep

/-- **A step of the socket thread.** -/
theorem Counts.socket_step (h : Counts m (.socket phase events :: l))
    (hstep : phase.step m events = some (some (m', t'))) : Counts m' (t' :: l) := by
  cases phase with
  | poll =>
    simp only [Phase.step] at hstep
    split at hstep
    · cases hstep
      exact h.quiet rfl rfl rfl rfl (by simp) rfl (fun hd => nomatch hd)
    · cases hstep
      split <;> exact h.quiet rfl rfl rfl rfl (le_refl _) rfl (fun hd => nomatch hd)
    · cases hstep
      split <;> exact h.quiet rfl rfl rfl rfl (le_refl _) rfl (fun hd => nomatch hd)
    · split at hstep
      · cases hstep
        exact h.quiet rfl rfl rfl rfl (le_refl _) rfl (fun hd => nomatch hd)
      · cases hstep
        unfold sendSocket
        split
        · apply h.goes <;> simp_all [Socket.free] <;> grind
        · split
          · apply h.goes <;> simp_all
            grind
          · split
            · apply h.goes <;> simp_all <;> grind
            · apply h.goes <;> simp_all
              grind
      · cases hstep
        split <;> apply h.goes <;> simp_all [List.filterMap_cons]
  | dec =>
    simp only [Phase.step] at hstep
    split at hstep <;> cases hstep
    apply h.goes <;> simp_all
    grind
  | nomore again reads shutdown writes =>
    cases reads <;> simp only [Phase.step] at hstep
    · split at hstep
      · cases hstep
        exact h.quiet rfl rfl rfl rfl (le_refl _) rfl (fun hd => nomatch hd)
      · repeat' split at hstep
        all_goals cases hstep
        · exact h.quiet rfl rfl rfl rfl (le_refl _) rfl (fun hd => nomatch hd)
        · apply h.goes <;> simp_all
        · exact h.quiet rfl rfl rfl rfl (le_refl _) rfl (fun hd => nomatch hd)
    · repeat' split at hstep
      all_goals cases hstep
      · exact h.quiet rfl rfl rfl rfl (le_refl _) rfl (fun hd => nomatch hd)
      · apply h.goes <;> simp_all
      · exact h.quiet rfl rfl rfl rfl (le_refl _) rfl (fun hd => nomatch hd)
      · exact h.quiet rfl rfl rfl rfl (le_refl _) rfl (fun hd => nomatch hd)
  | trylock shutdown writes =>
    simp only [Phase.step] at hstep
    split at hstep <;> cases hstep
    · cases shutdown <;> exact h.quiet rfl rfl rfl rfl (le_refl _) rfl (fun hd => nomatch hd)
    · apply h.goes <;> simp_all
  | move shutdown writes =>
    have hnone := h.writing_none rfl rfl
    simp only [Phase.step, Option.some.injEq] at hstep
    split at hstep <;> cases hstep
    unfold Socket.move
    cases hdw : m.dwBuffer with
    | none => apply h.goes <;> simp_all
    | some b => apply h.goes <;> simp_all
  | list low shutdown writes =>
    simp only [Phase.step] at hstep
    rcases sendListTcp_cases m low shutdown writes with ⟨ws, heq⟩ | heq | ⟨b, bs, n, ws, hlist, hn, heq⟩
    · simp only [heq, Option.some.injEq, Prod.mk.injEq] at hstep
      obtain ⟨rfl, rfl⟩ := hstep
      exact h.quiet rfl rfl rfl rfl (le_refl _) rfl (fun hd => nomatch hd)
    · simp only [heq, Option.some.injEq, Prod.mk.injEq] at hstep
      obtain ⟨rfl, rfl⟩ := hstep
      exact h.quiet rfl rfl rfl rfl (le_refl _) rfl (fun hd => nomatch hd)
    · obtain ⟨out, late, hwrite⟩ := write_eq m (b.rest.take n)
      simp only [heq, hwrite, Option.some.injEq, Prod.mk.injEq] at hstep
      obtain ⟨rfl, rfl⟩ := hstep
      cases low <;> split <;> apply h.goes <;> simp_all [Socket.list, Socket.setList]
  | pop low shutdown writes =>
    simp only [Phase.step] at hstep
    split at hstep <;> cases hstep
    rename_i b bs hlist
    obtain ⟨sent, freed, hdone, hcopies, hmem⟩ := done_eq m b.package
    rw [hdone]
    cases low <;> apply h.goes <;> simp_all [Socket.list, Socket.setList] <;> grind
  | after low shutdown writes =>
    cases low with
    | false =>
      cases hstep
      repeat' split
      all_goals exact h.quiet rfl rfl rfl rfl (le_refl _) rfl (fun hd => nomatch hd)
    | true =>
      simp only [Phase.step] at hstep
      split at hstep
      · cases hstep
        exact h.quiet rfl rfl rfl rfl (le_refl _) rfl (fun hd => nomatch hd)
      · split at hstep
        · simp only [Option.some.injEq] at hstep
          split at hstep <;> cases hstep
          apply h.goes <;> simp_all
        · cases hstep
          exact h.quiet rfl rfl rfl rfl (le_refl _) rfl (fun hd => nomatch hd)
  | last shutdown =>
    simp only [Phase.step, Option.some.injEq] at hstep
    split at hstep <;> cases hstep
    split <;> apply h.goes <;> simp_all
  | unlock shutdown =>
    have hlocked := h.locked rfl
    cases hstep
    cases shutdown <;> apply h.goes <;> simp_all [Phase.back]
  | free locked =>
    cases hstep
    cases locked <;> apply h.goes <;> simp_all [Socket.free] <;> grind
  | lock =>
    simp only [Phase.step] at hstep
    split at hstep <;> cases hstep
    apply h.goes <;> simp_all
  | invalid =>
    cases hstep
    apply h.goes <;> simp_all [Socket.free] <;> grind
  | unlockClosed =>
    have hlocked := h.locked rfl
    cases hstep
    apply h.goes <;> simp_all

end Steps

end SkynetEureka.SocketServer
