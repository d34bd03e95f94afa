import SkynetEureka.SocketServer.Counts

/-!
# The order of the packages

Until the socket thread begins to close the socket, the bytes that were written are the packages that were
sent whole and the first bytes of the buffer that is first in line. What is sent, what is in line and what
is in the pipe are the packages in their order: a package stands behind those of the same priority
whose calls had returned when its own call began.

A direct write puts its package before the lists and the pipe. It may do that because its caller has seen
the counter at 0 and then, under the lock, the high list empty and no `dw_buffer`: what had been given to the
pipe before the call is sent by then. This is what the second check adds to the first one.
-/

namespace SkynetEureka.SocketServer

open Lib

/-- What is sent, in line and in the pipe -/
def Socket.queue (m : Socket) : List Package := m.sent ++ m.line.map Buffer.package ++ m.commands

/-- A package may stand before another one of its priority that its call did not come after. -/
def Before (p q : Package) : Prop := p.high = q.high → q.id ∉ p.seen

/-- No command was there before the call. -/
def Socket.Clear (m : Socket) (p : Package) : Prop := ∀ q ∈ m.commands, q.id ∉ p.seen

/-- Nothing in the high list was there before the call, or was begun. -/
def Socket.Behind (m : Socket) (p : Package) : Prop := ∀ b ∈ m.high, b.package.id ∉ p.seen ∧ b.offset = 0

def Phase.Ok (m : Socket) : Phase → Prop
  | .list low _ _ | .after low _ _ => m.dwBuffer = none ∧ (low = true → m.high = [])
  | .pop low _ _ =>
    m.dwBuffer = none ∧ (low = true → m.high = []) ∧ ∃ b bs, m.list low = b :: bs ∧ b.rest = []
  | .last _ => m.dwBuffer = none ∧ m.high = [] ∧ m.low = []
  | .lock | .invalid | .unlockClosed => False
  | _ => True

/-- What a thread has seen -/
def Thread.Ok (m : Socket) : Thread → Prop
  | .check again field p _ =>
    p.high = true ∧ (again = true ∨ field = .type → m.Clear p) ∧ (again = true → field ≠ .high → m.Behind p)
  | .trylock p _ => p.high = true ∧ m.Clear p
  | .write p _ => p.high = true ∧ m.Clear p ∧ m.Behind p
  | .socket phase _ => phase.Ok m
  | _ => True

/-- The socket thread after a write of the low list -/
def Thread.sendsLow : Thread → ℕ
  | .socket (.pop true _ _) _ | .socket (.after true _ _) _ => 1
  | _ => 0

/-- A caller before `sp_write` -/
def Thread.arms : Thread → ℕ
  | .arm _ => 1
  | _ => 0

/-- The socket, until the socket thread begins to close it -/
structure Live (m : Socket) (l : List Thread) : Prop where
  type : m.type ≠ .invalid
  order : m.queue.Pairwise Before
  priority : ∀ b ∈ m.low, b.package.high = false
  out : m.out = m.sent.flatMap Package.bytes ++ m.line.head?.elim [] Buffer.taken
  fresh : ∀ b ∈ m.line.tail, b.offset = 0
  low : total Thread.sendsLow l = 0 → ∀ b ∈ m.low, b.offset = 0
  size : m.wbSize = ((m.high ++ m.low).map Buffer.sz).sum
  lists : m.high ≠ [] ∨ m.low ≠ [] → m.event = true
  direct : m.dwBuffer ≠ none → m.event = true ∨ 0 < total Thread.arms l
  thread : ∀ t ∈ l, t.Ok m

variable {m m' : Socket} {t t' : Thread} {l l' : List Thread} {events : List Event} {phase : Phase}

theorem Live.perm (hperm : l.Perm l') (h : Live m l) : Live m l' := by
  have hf : ∀ f : Thread → ℕ, total f l' = total f l := fun f => (total_perm hperm).symm
  obtain ⟨htype, horder, hpriority, hout, hfresh, hlow, hsize, hlists, hdirect, hthread⟩ := h
  refine ⟨htype, horder, hpriority, hout, hfresh, ?_, hsize, hlists, ?_, ?_⟩
  · rw [hf]
    exact hlow
  · rw [hf]
    exact hdirect
  · intro t ht
    exact hthread t (hperm.mem_iff.mpr ht)

/-- What the others have seen stays so. Only who has the lock changes `dw_buffer`, only the socket thread
takes from the lists, and what comes into the high list or the pipe was there or is of a call that has not
returned. -/
theorem Live.others (hc : Counts m (t :: l)) (h : Live m (t :: l))
    (hcommands : ∀ q ∈ m'.commands, q ∈ m.commands ∨ q.id ∉ m.returned)
    (hheld : t.holds = 1 ∨
      (∀ b ∈ m'.high, b ∈ m.high ∨ b.package ∈ m.commands ∧ b.offset = 0) ∧ m'.dwBuffer = m.dwBuffer ∧ (t.isSocket = 1 ∨ m'.high = m.high ∧ m'.low = m.low)) :
    ∀ u ∈ l, u.Ok m' := by
  intro u hu
  have hok := h.thread u (by simp [hu])
  have hseen : ∀ p, u.package = some p → m.Clear p → m'.Clear p := by
    intro p hp hclear q hq
    rcases hcommands q hq with hq | hq
    · exact hclear q hq
    · intro hmem
      exact hq (hc.carried u (by simp [hu]) p hp _ hmem)
  -- who holds the lock is not the thread that moves
  have hkeep : u.holds = 1 →
      (∀ b ∈ m'.high, b ∈ m.high ∨ b.package ∈ m.commands ∧ b.offset = 0) ∧ m'.dwBuffer = m.dwBuffer ∧ (t.isSocket = 1 ∨ m'.high = m.high ∧ m'.low = m.low) := by
    intro hold
    rcases hheld with ht | hrest
    · have := holds_eq_zero (hc.alone ht) hu
      omega
    · exact hrest
  have hbehind : ∀ p, u.holds = 1 → m.Clear p → m.Behind p → m'.Behind p := by
    intro p hold hclear hbehind b hb
    rcases (hkeep hold).1 b hb with hb | hb
    · exact hbehind b hb
    · exact ⟨hclear _ hb.1, hb.2⟩
  have hsocket : u.isSocket = 1 → u.holds = 1 → m'.dwBuffer = m.dwBuffer ∧ m'.high = m.high ∧
      m'.low = m.low := by
    intro hs hold
    obtain ⟨-, hdw, ht | hsame⟩ := hkeep hold
    · have hone := hc.socket
      obtain ⟨l₁, l₂, rfl⟩ := List.append_of_mem hu
      simp at hone
      omega
    · exact ⟨hdw, hsame⟩
  cases u with
  | check again field p n =>
    obtain ⟨hhigh, hclear, hb⟩ := hok
    refine ⟨hhigh, fun hpast => hseen p rfl (hclear hpast), fun hagain hfield => ?_⟩
    subst hagain
    exact hbehind p rfl (hclear (.inl rfl)) (hb rfl hfield)
  | trylock p n => exact ⟨hok.1, hseen p rfl hok.2⟩
  | write p n => exact ⟨hok.1, hseen p rfl hok.2.1, hbehind p rfl hok.2.1 hok.2.2⟩
  | socket phase events =>
    have hsame := hsocket rfl
    cases phase with
    | list low | pop low | after low | last =>
      obtain ⟨hdw, hhigh, hlow⟩ := hsame rfl
      simpa only [Thread.Ok, Phase.Ok, Socket.list, hdw, hhigh, hlow] using hok
    | _ => exact hok
  | _ => trivial

/-- A step that changes nothing of what is sent, in line or in the pipe -/
theorem Live.quiet (hc : Counts m (t :: l)) (h : Live m (t :: l)) (htype : m'.type ≠ .invalid)
    (hsame : m'.sent = m.sent ∧ m'.writing = m.writing ∧ m'.dwBuffer = m.dwBuffer ∧ m'.high = m.high ∧
      m'.low = m.low ∧ m'.commands = m.commands ∧ m'.out = m.out ∧ m'.wbSize = m.wbSize)
    (hevent : m.event = true → m'.event = true) (harms : t.arms ≤ t'.arms ∨ m'.event = true)
    (hlow : t.sendsLow ≤ t'.sendsLow ∨ ∀ b ∈ m.low, b.offset = 0) (hok : t'.Ok m') : Live m' (t' :: l) := by
  obtain ⟨hsent, hwriting, hdw, hhigh, hmlow, hcommands, hout, hsize⟩ := hsame
  have hline : m'.line = m.line := by simp only [Socket.line, hwriting, hdw, hhigh, hmlow]
  have hqueue : m'.queue = m.queue := by simp only [Socket.queue, hsent, hline, hcommands]
  constructor
  · exact htype
  · rw [hqueue]
    exact h.order
  · rw [hmlow]
    exact h.priority
  · rw [hout, hsent, hline]
    exact h.out
  · rw [hline]
    exact h.fresh
  · intro hzero
    rw [hmlow]
    rcases hlow with hle | hall
    · apply h.low
      rw [total_cons] at hzero ⊢
      omega
    · exact hall
  · rw [hsize, hhigh, hmlow]
    exact h.size
  · rw [hhigh, hmlow]
    exact fun hne => hevent (h.lists hne)
  · rw [hdw]
    intro hne
    rcases h.direct hne with he | hpos
    · exact .inl (hevent he)
    · rcases harms with hle | he
      · right
        rw [total_cons] at hpos ⊢
        omega
      · exact .inl he
  · intro u hu
    rcases List.mem_cons.mp hu with rfl | hu
    · exact hok
    · refine h.others hc (fun q hq => .inl (hcommands ▸ hq)) (.inr ⟨?_, hdw, .inr ⟨hhigh, hmlow⟩⟩) u hu
      intro b hb
      exact .inl (hhigh ▸ hb)

theorem write_open (h : m.closing = false) (bytes : List UInt8) :
    m.write bytes = { m with out := m.out ++ bytes } := by
  simp [Socket.write, h]

theorem done_open (h : m.closing = false) (p : Package) : m.done p = { m with sent := m.sent ++ [p] } := by
  simp [Socket.done, h]

/-! ## Calls -/

/-- A package that is carried was not seen by one that is in the memory. -/
theorem Counts.unseen (hc : Counts m (t :: l)) {p q : Package} (hp : t.package = some p)
    (hq : q ∈ m.packages) : p.id ∉ q.seen := by
  intro hmem
  exact hc.not_returned (List.mem_cons_self ..) hp (hc.seen q hq _ hmem)

theorem mem_packages_of_queue {q : Package} (h : q ∈ m.queue) : q ∈ m.packages := by
  simp only [Socket.queue, Socket.packages, List.mem_append] at h ⊢
  tauto

/-- A caller reads a field. -/
theorem Live.check {again : Bool} {field : Field} {p : Package} {n : ℕ}
    (hc : Counts m (.check again field p n :: l)) (h : Live m (.check again field p n :: l))
    (hidle : field.idle m = true) :
    Live m ((match field.next with
      | some field => .check again field p n
      | none => if again then .write p n else .trylock p n) :: l) := by
  obtain ⟨hhigh, hclear, hbehind⟩ := h.thread _ (List.mem_cons_self ..)
  -- the counter is 0 when nothing is in the pipe
  have hempty : m.sending = 0 → m.Clear p := by
    intro hzero q hq
    have hlen := hc.sending
    have := List.length_pos_of_mem hq
    omega
  have hquiet : ∀ t' : Thread, t'.arms = 0 → t'.sendsLow = 0 → t'.Ok m → Live m (t' :: l) := by
    intro t' harms hsends hok
    exact h.quiet hc h.type ⟨rfl, rfl, rfl, rfl, rfl, rfl, rfl, rfl⟩ id (.inl (by simp [Thread.arms]))
      (.inl (by simp [Thread.sendsLow])) hok
  cases field <;> simp only [Field.next]
  · refine hquiet _ rfl rfl ⟨hhigh, fun hpast => hclear (by simpa using hpast), fun hagain _ => ?_⟩
    have hnil : m.high = [] := by simpa [Field.idle] using hidle
    simp [Socket.Behind, hnil]
  · exact hquiet _ rfl rfl ⟨hhigh, fun hpast => hclear (by simpa using hpast),
      fun hagain _ => hbehind hagain (by simp)⟩
  · exact hquiet _ rfl rfl ⟨hhigh, fun hpast => hclear (by simpa using hpast),
      fun hagain _ => hbehind hagain (by simp)⟩
  · refine hquiet _ rfl rfl ⟨hhigh, fun _ => hempty (by simpa [Field.idle] using hidle),
      fun hagain _ => hbehind hagain (by simp)⟩
  · cases again with
    | true => exact hquiet _ rfl rfl ⟨hhigh, hclear (.inl rfl), hbehind rfl (by simp)⟩
    | false => exact hquiet _ rfl rfl ⟨hhigh, hclear (.inr rfl)⟩

/-- A package is put between others. -/
theorem pairwise_insert {p : Package} {ps qs : List Package} (h : (ps ++ qs).Pairwise Before)
    (hps : ∀ q ∈ ps, Before q p) (hqs : ∀ q ∈ qs, Before p q) : (ps ++ p :: qs).Pairwise Before := by
  rw [List.pairwise_append, List.pairwise_cons]
  obtain ⟨hleft, hright, hcross⟩ := List.pairwise_append.mp h
  refine ⟨hleft, ⟨hqs, hright⟩, ?_⟩
  intro a ha b hb
  rcases List.mem_cons.mp hb with rfl | hb
  · exact hps a ha
  · exact hcross a ha b hb

/-- What is known at a direct write: nothing is begun, and the package may go before the lists. -/
theorem Live.write_spec {p : Package} {n : ℕ} (hc : Counts m (.write p n :: l))
    (h : Live m (.write p n :: l)) :
    m.writing = none ∧ m.dwBuffer = none ∧ (∀ b ∈ m.high ++ m.low, b.offset = 0) ∧
      m.out = m.sent.flatMap Package.bytes ∧
      (m.sent ++ p :: ((m.high ++ m.low).map Buffer.package ++ m.commands)).Pairwise Before := by
  have hwriting := hc.writing_none rfl rfl
  have hdw := hc.direct _ (List.mem_cons_self ..) rfl
  obtain ⟨hhigh, hclear, hbehind⟩ := h.thread _ (List.mem_cons_self ..)
  have hline : m.line = m.high ++ m.low := by simp [Socket.line, hwriting, hdw]
  have hsends : total Thread.sendsLow (.write p n :: l) = 0 := by
    have hle : total Thread.sendsLow l ≤ total Thread.holds l := by
      apply total_mono
      intro u _
      unfold Thread.sendsLow
      split <;> simp [Thread.holds]
    have := hc.alone rfl
    simp [Thread.sendsLow]
    omega
  have hfresh : ∀ b ∈ m.high ++ m.low, b.offset = 0 := by
    intro b hb
    rcases List.mem_append.mp hb with hb | hb
    · exact (hbehind b hb).2
    · exact h.low hsends b hb
  refine ⟨hwriting, hdw, hfresh, ?_, ?_⟩
  · rw [h.out, hline]
    cases hl : m.high ++ m.low with
    | nil => simp
    | cons b bs => simp [Buffer.taken, hfresh b (by simp [hl])]
  · have horder := h.order
    rw [Socket.queue, hline, List.append_assoc] at horder
    apply pairwise_insert horder
    · intro q hq _
      exact hc.unseen rfl (by simp [Socket.packages, hq])
    · intro q hq hsame
      simp only [List.mem_append, List.mem_map] at hq
      rcases hq with ⟨b, hb | hb, rfl⟩ | hq
      · exact (hbehind b hb).1
      · rw [hhigh, h.priority b hb] at hsame
        cases hsame
      · exact hclear q hq

/-- **A direct write.** -/
theorem Live.write {p : Package} {n : ℕ} (hclosing : m.closing = false) (hc : Counts m (.write p n :: l))
    (h : Live m (.write p n :: l)) (hstep : (Thread.write p n).step m = some (some (m', t'))) :
    m'.closing = false ∧ Live m' (t' :: l) := by
  obtain ⟨hwriting, hdw, hfresh, hout, horder⟩ := h.write_spec hc
  have hhead : (m.high ++ m.low).head?.elim [] Buffer.taken = [] := by
    cases hl : m.high ++ m.low with
    | nil => rfl
    | cons b bs => simp [Buffer.taken, hfresh b (by simp [hl])]
  have hothers : ∀ {m' : Socket}, m'.commands = m.commands → ∀ u ∈ l, u.Ok m' := by
    intro m' hcommands
    exact h.others hc (fun q hq => .inl (hcommands ▸ hq)) (.inl rfl)
  have hlow : ∀ b ∈ m.low, b.offset = 0 := fun b hb => hfresh b (List.mem_append_right _ hb)
  simp only [Thread.step, write_open hclosing] at hstep
  split at hstep
  case isTrue hall =>
    rw [done_open (by exact hclosing)] at hstep
    cases hstep
    refine ⟨hclosing, h.type, ?_, h.priority, ?_, ?_, fun _ => hlow, h.size, h.lists, ?_, ?_⟩
    · simpa [Socket.queue, Socket.line, Socket.commands, hwriting, hdw] using horder
    · simp only [Socket.line, hwriting, hdw, Option.toList_none, List.nil_append]
      rw [hhead, hall, List.take_length, hout]
      simp
    · simp only [Socket.line, hwriting, hdw]
      exact fun b hb => hfresh b (List.mem_of_mem_tail hb)
    · simp [hdw]
    · intro u hu
      rcases List.mem_cons.mp hu with rfl | hu
      · trivial
      · exact hothers rfl u hu
  case isFalse hpart =>
    cases hstep
    refine ⟨hclosing, h.type, ?_, h.priority, ?_, ?_, fun _ => hlow, h.size, h.lists, ?_, ?_⟩
    · simpa [Socket.queue, Socket.line, Socket.commands, hdw] using horder
    · simp [Socket.line, hout, Buffer.taken]
    · simpa [Socket.line, hdw] using hfresh
    · simp [hdw]
    · intro u hu
      rcases List.mem_cons.mp hu with rfl | hu
      · trivial
      · exact hothers rfl u hu

/-- The buffer that was written in part becomes `dw_buffer`, at the same place in the line. -/
theorem Live.park {id : ℕ} (hc : Counts m (.park id :: l)) (h : Live m (.park id :: l)) :
    Live { m with dwBuffer := m.writing, writing := none } (.arm id :: l) := by
  have hdw := hc.direct _ (List.mem_cons_self ..) rfl
  have hline : Socket.line { m with dwBuffer := m.writing, writing := none } = m.line := by
    simp [Socket.line, hdw]
  constructor
  · exact h.type
  · rw [Socket.queue, hline]
    exact h.order
  · exact h.priority
  · simpa only [hline] using h.out
  · simpa only [hline] using h.fresh
  · intro hzero
    apply h.low
    simpa [Thread.sendsLow] using hzero
  · exact h.size
  · exact h.lists
  · intro _
    right
    simp [Thread.arms]
  · intro u hu
    rcases List.mem_cons.mp hu with rfl | hu
    · trivial
    · refine h.others hc ?_ (.inl rfl) u hu
      exact fun q hq => .inl hq

/-- A command comes behind all that is there. -/
theorem Live.request {p : Package} (hc : Counts m (.request p :: l)) (h : Live m (.request p :: l)) :
    Live (Socket.return { m with pipe := m.pipe ++ [Command.send p] } p.id) (.ended :: l) := by
  have hcommands : Socket.commands (Socket.return { m with pipe := m.pipe ++ [Command.send p] } p.id) =
      m.commands ++ [p] := by
    simp [Socket.commands, Socket.return]
  have hothers : ∀ u ∈ l, u.Ok (Socket.return { m with pipe := m.pipe ++ [Command.send p] } p.id) := by
    apply h.others hc
    · intro q hq
      rw [hcommands] at hq
      rcases List.mem_append.mp hq with hq | hq
      · exact .inl hq
      · rw [List.mem_singleton.mp hq]
        exact .inr (hc.not_returned (List.mem_cons_self ..) rfl)
    · exact .inr ⟨fun b hb => .inl hb, rfl, .inr ⟨rfl, rfl⟩⟩
  constructor
  · exact h.type
  · have horder : (m.queue ++ [p]).Pairwise Before := by
      apply pairwise_insert
      · simpa using h.order
      · intro q hq _
        exact hc.unseen rfl (mem_packages_of_queue hq)
      · simp
    rw [Socket.queue, hcommands, ← List.append_assoc]
    exact horder
  · exact h.priority
  · exact h.out
  · exact h.fresh
  · intro hzero
    apply h.low
    simpa [Thread.sendsLow] using hzero
  · exact h.size
  · exact h.lists
  · intro hne
    simpa [Thread.arms, Socket.return] using h.direct hne
  · intro u hu
    rcases List.mem_cons.mp hu with rfl | hu
    · trivial
    · exact hothers u hu

/-- **A step of a call.** -/
theorem Live.call_step (hclosing : m.closing = false) (ht : t.isSocket = 0) (hc : Counts m (t :: l))
    (h : Live m (t :: l)) (hstep : t.step m = some (some (m', t'))) :
    m'.closing = false ∧ Live m' (t' :: l) := by
  have hok := h.thread _ (List.mem_cons_self ..)
  cases t with
  | send high bytes n =>
    simp only [Thread.step, if_neg h.type, Option.some.injEq, Prod.mk.injEq] at hstep
    obtain ⟨rfl, rfl⟩ := hstep
    refine ⟨hclosing, h.quiet hc h.type ⟨rfl, rfl, rfl, rfl, rfl, rfl, rfl, rfl⟩ id ?_ ?_ ?_⟩
    · exact .inl (Nat.zero_le _)
    · exact .inl (Nat.zero_le _)
    · cases high <;> simp [Thread.Ok]
  | check again field p n =>
    simp only [Thread.step, Option.some.injEq, Prod.mk.injEq] at hstep
    obtain ⟨rfl, rfl⟩ := hstep
    refine ⟨hclosing, ?_⟩
    split
    case isTrue hidle => exact h.check hc hidle
    case isFalse =>
      refine h.quiet hc h.type ⟨rfl, rfl, rfl, rfl, rfl, rfl, rfl, rfl⟩ id ?_ ?_ ?_
      · exact .inl (Nat.zero_le _)
      · exact .inl (Nat.zero_le _)
      · cases again <;> trivial
  | trylock p n =>
    simp only [Thread.step] at hstep
    split at hstep <;> cases hstep
    · exact ⟨hclosing, h.quiet hc h.type ⟨rfl, rfl, rfl, rfl, rfl, rfl, rfl, rfl⟩ id (.inl (Nat.zero_le _))
        (.inl (Nat.zero_le _)) trivial⟩
    · exact ⟨hclosing, h.quiet hc h.type ⟨rfl, rfl, rfl, rfl, rfl, rfl, rfl, rfl⟩ id (.inl (Nat.zero_le _))
        (.inl (Nat.zero_le _)) ⟨hok.1, fun _ => hok.2, fun _ hne => absurd rfl hne⟩⟩
  | write p n => exact h.write hclosing hc hstep
  | park id =>
    cases hstep
    exact ⟨hclosing, h.park hc⟩
  | arm i =>
    cases hstep
    exact ⟨hclosing, h.quiet hc h.type ⟨rfl, rfl, rfl, rfl, rfl, rfl, rfl, rfl⟩ (fun _ => rfl) (.inr rfl)
      (.inl (Nat.zero_le _)) trivial⟩
  | unlock i | giveUp p =>
    cases hstep
    exact ⟨hclosing, h.quiet hc h.type ⟨rfl, rfl, rfl, rfl, rfl, rfl, rfl, rfl⟩ id (.inl (Nat.zero_le _))
      (.inl (Nat.zero_le _)) trivial⟩
  | count p =>
    simp only [Thread.step] at hstep
    split at hstep <;> cases hstep
    exact ⟨hclosing, h.quiet hc h.type ⟨rfl, rfl, rfl, rfl, rfl, rfl, rfl, rfl⟩ id (.inl (Nat.zero_le _))
      (.inl (Nat.zero_le _)) trivial⟩
  | request p =>
    cases hstep
    exact ⟨hclosing, h.request hc⟩
  | close shutdown =>
    cases hstep
    refine ⟨hclosing, h.quiet hc h.type ⟨rfl, rfl, rfl, rfl, rfl, ?_, rfl, rfl⟩ id (.inl (Nat.zero_le _))
      (.inl (Nat.zero_le _)) trivial⟩
    simp [Socket.commands, List.filterMap_cons]
  | socket phase events => simp [Thread.isSocket] at ht
  | ended => cases hstep

/-! ## The socket thread -/

section Socket

variable {p : Package} {shutdown : Option Bool} {writes : List Written} {events' : List Event}

theorem sendsLow_le : total Thread.sendsLow l ≤ total Thread.holds l := by
  apply total_mono
  intro u _
  unfold Thread.sendsLow
  split <;> simp [Thread.holds]

theorem sendsLow_le_socket : total Thread.sendsLow l ≤ total Thread.isSocket l := by
  apply total_mono
  intro u _
  unfold Thread.sendsLow
  split <;> simp [Thread.isSocket]

/-- The low list is not begun while the socket thread does something else. -/
theorem Live.low_fresh (hc : Counts m (t :: l)) (h : Live m (t :: l)) (ht : t.isSocket = 1)
    (hzero : t.sendsLow = 0) : ∀ b ∈ m.low, b.offset = 0 := by
  apply h.low
  have hone := hc.socket
  have hle := sendsLow_le_socket (l := l)
  rw [total_cons] at hone ⊢
  omega

/-- A package of the pipe is put into the line, before buffers of the other priority. -/
theorem Live.insert {A B : List Buffer} (h : Live m (t :: l)) (hline : m.line = A ++ B)
    (hB : ∀ b ∈ B, b.offset = 0 ∧ b.package.high ≠ p.high) (hcommands : m.commands = p :: m'.commands)
    (hline' : m'.line = A ++ ⟨p, 0⟩ :: B) (hsent : m'.sent = m.sent) (hout : m'.out = m.out) :
    m'.queue.Pairwise Before ∧
      m'.out = m'.sent.flatMap Package.bytes ++ m'.line.head?.elim [] Buffer.taken ∧
      ∀ b ∈ m'.line.tail, b.offset = 0 := by
  have horder := h.order
  have hout₀ := h.out
  have hfresh := h.fresh
  rw [Socket.queue, hline, hcommands] at horder
  rw [hline] at hout₀ hfresh
  rw [Socket.queue, hsent, hout, hline']
  refine ⟨?_, ?_, ?_⟩
  · -- `p` moves over the buffers of `B`
    have hleft : (m.sent ++ A.map Buffer.package ++ (B.map Buffer.package ++ m'.commands)).Pairwise Before := by
      refine List.Pairwise.sublist ?_ horder
      simp
    have hp : ∀ q ∈ m.sent ++ A.map Buffer.package, Before q p := by
      intro q hq
      apply (List.pairwise_append.mp horder).2.2 q _ p (by simp)
      simp only [List.map_append, List.mem_append] at hq ⊢
      tauto
    have hq : ∀ q ∈ B.map Buffer.package ++ m'.commands, Before p q := by
      intro q hq
      rcases List.mem_append.mp hq with hq | hq
      · obtain ⟨b, hb, rfl⟩ := List.mem_map.mp hq
        exact fun hsame => absurd hsame.symm (hB b hb).2
      · exact (List.pairwise_cons.mp (List.pairwise_append.mp horder).2.1).1 q hq
    have := pairwise_insert hleft hp hq
    simpa using this
  · rw [hout₀]
    cases A with
    | cons a A => simp
    | nil =>
      cases B with
      | nil => simp [Buffer.taken]
      | cons b B => simp [Buffer.taken, (hB b (by simp)).1]
  · intro b hb
    cases A with
    | nil => exact (hB b (by simpa using hb)).1
    | cons a A =>
      simp only [List.cons_append, List.tail_cons, List.mem_append, List.mem_cons] at hb hfresh
      rcases hb with hb | rfl | hb
      · exact hfresh b (.inl hb)
      · rfl
      · exact hfresh b (.inr hb)

/-- `append_sendbuffer` -/
theorem Live.append {A B : List Buffer} (hc : Counts m (.socket .poll events :: l))
    (h : Live m (.socket .poll events :: l)) (hline : m.line = A ++ B)
    (hB : ∀ b ∈ B, b.offset = 0 ∧ b.package.high ≠ p.high) (hcommands : m.commands = p :: m'.commands)
    (hline' : m'.line = A ++ ⟨p, 0⟩ :: B)
    (hsame : m'.sent = m.sent ∧ m'.out = m.out ∧ m'.dwBuffer = m.dwBuffer ∧ m'.type = m.type)
    (hhigh : ∀ b ∈ m'.high, b ∈ m.high ∨ b = ⟨p, 0⟩)
    (hlow : ∀ b ∈ m'.low, b ∈ m.low ∨ b = ⟨p, 0⟩ ∧ p.high = false)
    (hsize : m'.wbSize = ((m'.high ++ m'.low).map Buffer.sz).sum) (hevent : m'.event = true) :
    Live m' (.socket .dec events' :: l) := by
  obtain ⟨hsent, hout, hdw, htype⟩ := hsame
  obtain ⟨horder', hout', hfresh'⟩ := h.insert hline hB hcommands hline' hsent hout
  have hmem : p ∈ m.commands := by simp [hcommands]
  have hothers : ∀ u ∈ l, u.Ok m' := by
    apply h.others hc
    · intro q hq
      left
      rw [hcommands]
      exact List.mem_cons_of_mem _ hq
    · refine .inr ⟨?_, hdw, .inl rfl⟩
      intro b hb
      rcases hhigh b hb with hb | rfl
      · exact .inl hb
      · exact .inr ⟨hmem, rfl⟩
  refine ⟨htype ▸ h.type, horder', ?_, hout', hfresh', ?_, hsize, fun _ => hevent, fun _ => .inl hevent, ?_⟩
  · intro b hb
    rcases hlow b hb with hb | ⟨rfl, hp⟩
    · exact h.priority b hb
    · exact hp
  · intro _ b hb
    rcases hlow b hb with hb | ⟨rfl, -⟩
    · exact h.low_fresh hc rfl rfl b hb
    · rfl
  · intro u hu
    rcases List.mem_cons.mp hu with rfl | hu
    · trivial
    · exact hothers u hu

/-- **A command.** `send_socket` puts the package at the end of its list, or frees it. -/
theorem Live.command {pipe : List Command} (hc : Counts m (.socket .poll events :: l))
    (h : Live m (.socket .poll events :: l)) (hpipe : m.pipe = .send p :: pipe) :
    Live (sendSocket { m with pipe := pipe } p) (.socket .dec events' :: l) := by
  have hcommands : m.commands = p :: pipe.filterMap Command.package := by
    simp [Socket.commands, hpipe]
  have hsize := h.size
  have hlow := h.low_fresh hc rfl rfl
  unfold sendSocket
  split
  case isTrue =>
    have hothers : ∀ u ∈ l, u.Ok (Socket.free { m with pipe := pipe } [p]) := by
      apply h.others hc
      · intro q hq
        left
        rw [hcommands]
        exact List.mem_cons_of_mem _ hq
      · exact .inr ⟨fun b hb => .inl hb, rfl, .inr ⟨rfl, rfl⟩⟩
    refine ⟨h.type, ?_, h.priority, h.out, h.fresh, ?_, h.size, h.lists, ?_, ?_⟩
    · refine List.Pairwise.sublist ?_ h.order
      rw [Socket.queue, Socket.queue, hcommands]
      exact List.Sublist.append (List.Sublist.refl _) (List.sublist_cons_self ..)
    · intro _
      exact hlow
    · intro hne
      simpa [Thread.arms, Socket.free] using h.direct hne
    · intro u hu
      rcases List.mem_cons.mp hu with rfl | hu
      · trivial
      · exact hothers u hu
  case isFalse htype =>
    have hconnected : m.type = .connected := by
      cases hm : m.type <;> simp_all
    split
    case isTrue hempty =>
      obtain ⟨hhigh, hlow, -⟩ : m.high = [] ∧ m.low = [] ∧ m.type = .connected := hempty
      refine h.append (p := p) hc (A := m.line) (B := []) (by simp) (by simp) hcommands ?_
        ⟨rfl, rfl, rfl, rfl⟩ ?_ ?_ ?_ rfl
      · simp [Socket.line, hhigh, hlow]
      · simp
      · simp [hlow]
      · simp [hsize, hhigh, hlow, Buffer.sz, Buffer.rest]
    case isFalse hne =>
      have hevent : m.event = true := by
        apply h.lists
        by_contra hnone
        push Not at hnone
        exact hne ⟨hnone.1, hnone.2, hconnected⟩
      split
      case isTrue hp =>
        refine h.append (p := p) hc (A := m.writing.toList ++ m.dwBuffer.toList ++ m.high) (B := m.low)
          rfl ?_ hcommands ?_ ⟨rfl, rfl, rfl, rfl⟩ ?_ ?_ ?_ hevent
        · intro b hb
          refine ⟨hlow b hb, ?_⟩
          rw [h.priority b hb, show p.high = true from hp]
          simp
        · simp [Socket.line]
        · simp
        · exact fun b hb => .inl hb
        · simp [hsize, Buffer.sz, Buffer.rest]
          omega
      case isFalse hp =>
        refine h.append (p := p) hc (A := m.line) (B := []) (by simp) (by simp) hcommands ?_
          ⟨rfl, rfl, rfl, rfl⟩ ?_ ?_ ?_ hevent
        · simp [Socket.line]
        · exact fun b hb => .inl hb
        · simp [Bool.eq_false_iff.mpr hp]
        · simp [hsize, Buffer.sz, Buffer.rest]
          omega

/-- The socket thread changes the line under the lock, and not what it stands for. -/
theorem Live.line_step (hc : Counts m (.socket phase events :: l))
    (h : Live m (.socket phase events :: l)) (hold : (Thread.socket phase events).holds = 1)
    (htype : m'.type = m.type) (hcommands : m'.commands = m.commands) (hqueue : m'.queue = m.queue)
    (hpriority : ∀ b ∈ m'.low, b.package.high = false)
    (hout : m'.out = m'.sent.flatMap Package.bytes ++ m'.line.head?.elim [] Buffer.taken)
    (hfresh : ∀ b ∈ m'.line.tail, b.offset = 0) (hlow : t'.sendsLow = 0 → ∀ b ∈ m'.low, b.offset = 0)
    (hsize : m'.wbSize = ((m'.high ++ m'.low).map Buffer.sz).sum) (hevent : m'.event = true)
    (hok : t'.Ok m') : Live m' (t' :: l) := by
  refine ⟨htype ▸ h.type, hqueue ▸ h.order, hpriority, hout, hfresh, ?_, hsize, fun _ => hevent,
    fun _ => .inl hevent, ?_⟩
  · intro hzero
    apply hlow
    rw [total_cons] at hzero
    omega
  · intro u hu
    rcases List.mem_cons.mp hu with rfl | hu
    · exact hok
    · exact h.others hc (fun q hq => .inl (hcommands ▸ hq)) (.inl hold) u hu

theorem arms_le : total Thread.arms l ≤ total Thread.holds l := by
  apply total_mono
  intro u _
  cases u <;> simp [Thread.arms, Thread.holds]

/-- `dw_buffer` comes before the high list. -/
theorem Live.move (hc : Counts m (.socket (.move shutdown writes) events :: l))
    (h : Live m (.socket (.move shutdown writes) events :: l)) :
    Live m.move (.socket (.list false shutdown writes) events :: l) := by
  have hwriting := hc.writing_none rfl rfl
  have hlow := h.low_fresh hc rfl rfl
  unfold Socket.move
  cases hdw : m.dwBuffer with
  | none =>
    refine h.quiet hc h.type ⟨rfl, rfl, rfl, rfl, rfl, rfl, rfl, rfl⟩ id (.inl (Nat.zero_le _))
      (.inl (Nat.zero_le _)) ?_
    exact ⟨hdw, by simp⟩
  | some b =>
    have hevent : m.event = true := by
      rcases h.direct (by simp [hdw]) with he | hpos
      · exact he
      · have := arms_le (l := l)
        have := hc.alone rfl
        simp [Thread.arms] at hpos
        omega
    have hout := h.out
    have hfresh := h.fresh
    have hsize := h.size
    refine h.line_step hc rfl rfl rfl ?_ h.priority ?_ ?_ (fun _ => hlow) ?_ hevent ⟨rfl, by simp⟩
    · simp [Socket.queue, Socket.line, hwriting, hdw, Socket.commands]
    · simpa [Socket.line, hwriting, hdw] using hout
    · simpa [Socket.line, hwriting, hdw] using hfresh
    · simp [hsize]
      omega

theorem Buffer.rest_take (b : Buffer) (n : ℕ) :
    b.taken ++ b.rest.take n = Buffer.taken ⟨b.package, b.offset + n⟩ := by
  simp [Buffer.taken, Buffer.rest, List.take_add]

/-- The buffer at which the socket thread is gets another offset. -/
def Socket.advance (m : Socket) (low : Bool) (b : Buffer) (bs : List Buffer) (n : ℕ) : Socket :=
  { m with out := m.out ++ b.rest.take n, wbSize := m.wbSize - n }.setList low
    (⟨b.package, b.offset + n⟩ :: bs)

/-- A buffer that was written to its end is taken out next. -/
theorem Phase.advance_ok {low : Bool} {b : Buffer} {bs : List Buffer} {n : ℕ}
    (hdw : m.dwBuffer = none) (hhigh : low = true → m.high = []) :
    Phase.Ok (m.advance low b bs n)
      (if n = b.sz then .pop low shutdown writes else .after low shutdown writes) := by
  have hhigh' : low = true → (m.advance low b bs n).high = [] := by
    rintro rfl
    exact hhigh rfl
  have hdw' : (m.advance low b bs n).dwBuffer = none := by
    cases low <;> exact hdw
  split
  case isTrue hall =>
    refine ⟨hdw', hhigh', ⟨b.package, b.offset + n⟩, bs, ?_, ?_⟩
    · cases low <;> rfl
    · have hsz : b.sz = b.package.bytes.length - b.offset := by simp [Buffer.sz, Buffer.rest]
      rw [Buffer.rest, List.drop_eq_nil_iff]
      show b.package.bytes.length ≤ b.offset + n
      omega
  case isFalse => exact ⟨hdw', hhigh'⟩

/-- **A write of the socket thread.** -/
theorem Live.list_write {low : Bool} {b : Buffer} {bs : List Buffer} {n : ℕ} {next : Phase}
    (hc : Counts m (.socket (.list low shutdown writes) events :: l))
    (h : Live m (.socket (.list low shutdown writes) events :: l)) (hlist : m.list low = b :: bs)
    (hn : n ≤ b.sz) (hnext : next.Ok (m.advance low b bs n))
    (hsends : low = true → (Thread.socket next events).sendsLow = 1) :
    Live (m.advance low b bs n) (.socket next events :: l) := by
  obtain ⟨hdw, hhigh⟩ := h.thread _ (List.mem_cons_self ..)
  have hwriting := hc.writing_none rfl rfl
  have hlow := h.low_fresh hc rfl rfl
  have hout := h.out
  have hfresh := h.fresh
  have hsize := h.size
  have hsz : Buffer.sz ⟨b.package, b.offset + n⟩ = b.sz - n := by
    simp [Buffer.sz, Buffer.rest]
    omega
  have hevent : m.event = true := by
    apply h.lists
    cases low with
    | false => exact .inl (by simp_all [Socket.list])
    | true => exact .inr (by simp_all [Socket.list])
  cases low with
  | false =>
    replace hlist : m.high = b :: bs := hlist
    have hline : m.line = b :: (bs ++ m.low) := by simp [Socket.line, hwriting, hdw, hlist]
    have hline' : (m.advance false b bs n).line = ⟨b.package, b.offset + n⟩ :: (bs ++ m.low) := by
      simp [Socket.advance, Socket.setList, Socket.line, hwriting, hdw]
    rw [hline] at hout hfresh
    refine h.line_step hc rfl rfl rfl ?_ h.priority ?_ ?_ (fun _ => hlow) ?_ hevent hnext
    · simp [Socket.queue, hline, hline']
      rfl
    · rw [hline']
      simp [Socket.advance, Socket.setList, hout, ← Buffer.rest_take]
    · rw [hline']
      exact hfresh
    · simp [Socket.advance, Socket.setList, hsize, hlist, hsz]
      omega
  | true =>
    replace hlist : m.low = b :: bs := hlist
    replace hhigh : m.high = [] := hhigh rfl
    have hline : m.line = b :: bs := by simp [Socket.line, hwriting, hdw, hlist, hhigh]
    have hline' : (m.advance true b bs n).line = ⟨b.package, b.offset + n⟩ :: bs := by
      simp [Socket.advance, Socket.setList, Socket.line, hwriting, hdw, hhigh]
    have hpriority := h.priority
    rw [hline] at hout hfresh
    rw [hlist] at hpriority
    refine h.line_step hc rfl rfl rfl ?_ ?_ ?_ ?_ ?_ ?_ hevent hnext
    · simp [Socket.queue, hline, hline']
      rfl
    · simpa [Socket.advance, Socket.setList] using hpriority
    · rw [hline']
      simp [Socket.advance, Socket.setList, hout, ← Buffer.rest_take]
    · rw [hline']
      exact hfresh
    · intro hzero
      rw [hsends rfl] at hzero
      cases hzero
    · simp [Socket.advance, Socket.setList, hsize, hlist, hhigh, hsz]
      omega

theorem Buffer.taken_of_rest (b : Buffer) (h : b.rest = []) : b.taken = b.package.bytes := by
  have := List.take_append_drop b.offset b.package.bytes
  rw [Buffer.rest] at h
  rw [h, List.append_nil] at this
  exact this

/-- **A buffer is done.** Its package is sent, and the next one has not been begun. -/
theorem Live.pop {low : Bool} (hclosing : m.closing = false)
    (hc : Counts m (.socket (.pop low shutdown writes) events :: l))
    (h : Live m (.socket (.pop low shutdown writes) events :: l)) {b : Buffer} {bs : List Buffer}
    (hlist : m.list low = b :: bs) :
    Live ((m.done b.package).setList low bs) (.socket (.list low shutdown writes) events :: l) := by
  obtain ⟨hdw, hhigh, c, cs, hcs, hrest⟩ := h.thread _ (List.mem_cons_self ..)
  obtain ⟨rfl, rfl⟩ : b = c ∧ bs = cs := by simpa [hlist] using hcs
  have hwriting := hc.writing_none rfl rfl
  have hout := h.out
  have hfresh := h.fresh
  have hsize := h.size
  have hzero : b.sz = 0 := by simp [Buffer.sz, hrest]
  have hhead : ∀ bs : List Buffer, (∀ c ∈ bs, c.offset = 0) → bs.head?.elim [] Buffer.taken = [] := by
    intro bs hbs
    cases bs with
    | nil => rfl
    | cons c cs => simp [Buffer.taken, hbs c (by simp)]
  rw [done_open hclosing]
  cases low with
  | false =>
    replace hlist : m.high = b :: bs := hlist
    have hline : m.line = b :: (bs ++ m.low) := by simp [Socket.line, hwriting, hdw, hlist]
    rw [hline] at hout hfresh
    have hnew : Socket.line { m with sent := m.sent ++ [b.package], high := bs } = bs ++ m.low := by
      simp [Socket.line, hwriting, hdw]
    have hlow := h.low_fresh hc rfl rfl
    refine h.line_step hc rfl rfl rfl ?_ h.priority ?_ ?_ (fun _ => hlow) ?_ (h.lists (.inl (by simp [hlist])))
      ⟨hdw, by simp⟩
    · simp [Socket.queue, hline, Socket.setList, hnew]
      rfl
    · simp only [Socket.setList, Bool.false_eq_true, if_false, hnew]
      rw [hhead (bs ++ m.low) hfresh, hout]
      simp [Buffer.taken_of_rest b hrest]
    · simp only [Socket.setList, Bool.false_eq_true, if_false, hnew]
      exact fun c hmem => hfresh c (List.mem_of_mem_tail hmem)
    · simp [Socket.setList, hsize, hlist, hzero]
  | true =>
    replace hlist : m.low = b :: bs := hlist
    replace hhigh : m.high = [] := hhigh rfl
    have hline : m.line = b :: bs := by simp [Socket.line, hwriting, hdw, hlist, hhigh]
    have hpriority := h.priority
    rw [hline] at hout hfresh
    rw [hlist] at hpriority
    have hnew : Socket.line { m with sent := m.sent ++ [b.package], low := bs } = bs := by
      simp [Socket.line, hwriting, hdw, hhigh]
    refine h.line_step hc rfl rfl rfl ?_ ?_ ?_ ?_ ?_ ?_ (h.lists (.inr (by simp [hlist])))
      ⟨hdw, fun _ => hhigh⟩
    · simp [Socket.queue, hline, Socket.setList, hnew]
      rfl
    · exact fun c hmem => hpriority c (List.mem_cons_of_mem _ hmem)
    · simp only [Socket.setList, if_true, hnew]
      rw [hhead bs hfresh, hout]
      simp [Buffer.taken_of_rest b hrest]
    · simp only [Socket.setList, if_true, hnew]
      exact fun c hmem => hfresh c (List.mem_of_mem_tail hmem)
    · exact fun _ => hfresh
    · simp [Socket.setList, hsize, hlist, hhigh, hzero]

/-- `raise_uncomplete`: a package of the low list that was begun is first in the high list. -/
theorem Live.raise {b : Buffer} {low : List Buffer}
    (hc : Counts m (.socket (.after true shutdown writes) events :: l))
    (h : Live m (.socket (.after true shutdown writes) events :: l)) (hlow : m.low = b :: low) :
    Live { m with low := low, high := [b] } (.socket (.unlock shutdown) events :: l) := by
  obtain ⟨hdw, hhigh⟩ := h.thread _ (List.mem_cons_self ..)
  replace hhigh : m.high = [] := hhigh rfl
  have hwriting := hc.writing_none rfl rfl
  have hline : m.line = b :: low := by simp [Socket.line, hwriting, hdw, hhigh, hlow]
  have hnew : Socket.line { m with low := low, high := [b] } = b :: low := by
    simp [Socket.line, hwriting, hdw]
  have hout := h.out
  have hfresh := h.fresh
  have hpriority := h.priority
  have hsize := h.size
  rw [hline] at hout hfresh
  rw [hlow] at hpriority
  refine h.line_step hc rfl rfl rfl ?_ ?_ ?_ ?_ ?_ ?_ (h.lists (.inr (by simp [hlow]))) trivial
  · simp only [Socket.queue, hline, hnew]
    rfl
  · exact fun c hmem => hpriority c (List.mem_cons_of_mem _ hmem)
  · simpa only [hnew] using hout
  · simpa only [hnew] using hfresh
  · exact fun _ => hfresh
  · simp [hsize, hhigh, hlow]

/-- Both lists are empty, and so is `dw_buffer`: the write event is turned off. -/
theorem Live.last (hc : Counts m (.socket (.last shutdown) events :: l))
    (h : Live m (.socket (.last shutdown) events :: l)) {next : Phase}
    (hnext : next.Ok { m with event := false }) :
    Live { m with event := false } (.socket next events :: l) := by
  obtain ⟨hdw, hhigh, hlow⟩ := h.thread _ (List.mem_cons_self ..)
  refine ⟨h.type, h.order, h.priority, h.out, h.fresh, ?_, h.size, ?_, ?_, ?_⟩
  · simp [hlow]
  · simp [hhigh, hlow]
  · simp [hdw]
  · have hothers : ∀ u ∈ l, u.Ok { m with event := false } := by
      apply h.others hc
      · exact fun q hq => .inl hq
      · exact .inl rfl
    intro u hu
    rcases List.mem_cons.mp hu with rfl | hu
    · exact hnext
    · exact hothers u hu

/-! ## The close -/

def Phase.Closed (m : Socket) : Phase → Prop
  | .lock | .invalid => True
  | .poll | .dec | .unlockClosed => m.type = .invalid
  | _ => False

def Thread.Closed (m : Socket) : Thread → Prop
  | .socket phase _ => phase.Closed m
  | _ => True

/-- The bytes are those of whole packages, up to the last one, each of which is there once, and in order. -/
def Stream (m : Socket) : Prop :=
  ∃ order, m.sent <+: order ∧ m.out <+: order.flatMap Package.bytes ∧ (order.map Package.id).Nodup ∧
    order.Pairwise Before

/-- The socket, from the step on with which `force_close` begins -/
structure Closed (m : Socket) (l : List Thread) : Prop where
  stream : Stream m
  thread : ∀ t ∈ l, t.Closed m

theorem Closed.perm (hperm : l.Perm l') (h : Closed m l) : Closed m l' :=
  ⟨h.stream, fun t ht => h.thread t (hperm.mem_iff.mpr ht)⟩

/-- What is sent and in line is the stream. -/
theorem Live.stream (hc : Counts m l) (h : Live m l) : Stream m := by
  refine ⟨m.sent ++ m.line.map Buffer.package, List.prefix_append _ _, ?_, ?_, ?_⟩
  · rw [h.out, List.flatMap_append]
    apply (List.prefix_append_right_inj _).mpr
    cases m.line with
    | nil => simp
    | cons b bs =>
      simp only [List.head?_cons, Option.elim_some, List.map_cons, List.flatMap_cons]
      exact (List.take_prefix _ _).trans (List.prefix_append _ _)
  · apply nodup_of_copies
    intro id
    have hplace := hc.place id
    have hissued : issued m.next id ≤ 1 := by
      unfold issued
      split <;> omega
    simp only [Socket.packages, copies_append] at hplace ⊢
    omega
  · exact (List.pairwise_append.mp h.order).1

/-- **`force_close` begins.** -/
theorem Live.free {locked : Bool} (hc : Counts m (.socket (.free locked) events :: l))
    (h : Live m (.socket (.free locked) events :: l)) :
    Closed { m.free ((m.high ++ m.low).map Buffer.package) with high := [], low := [], closing := true }
      (.socket (if locked then .invalid else .lock) events :: l) := by
  have hstream := h.stream hc
  refine ⟨hstream, ?_⟩
  intro u hu
  rcases List.mem_cons.mp hu with rfl | hu
  · cases locked <;> trivial
  · cases u with
    | socket phase events =>
      -- there is one socket thread
      have hone := hc.socket
      obtain ⟨l₁, l₂, rfl⟩ := List.append_of_mem hu
      simp [Thread.isSocket] at hone
    | _ => trivial

/-- What the invariant is, before and after the close begins -/
def Inv (m : Socket) (l : List Thread) : Prop :=
  Counts m l ∧ (m.closing = false → Live m l) ∧ (m.closing = true → Closed m l)

/-- The socket thread goes on without a change of what the invariant is about. -/
theorem Live.socket_quiet {next : Phase}
    (hc : Counts m (.socket phase events :: l)) (h : Live m (.socket phase events :: l))
    (htype : m'.type ≠ .invalid)
    (hsame : m'.sent = m.sent ∧ m'.writing = m.writing ∧ m'.dwBuffer = m.dwBuffer ∧ m'.high = m.high ∧
      m'.low = m.low ∧ m'.commands = m.commands ∧ m'.out = m.out ∧ m'.wbSize = m.wbSize)
    (hevent : m'.event = m.event) (hlow : (Thread.socket phase events).sendsLow = 0)
    (hok : next.Ok m') : Live m' (.socket next events' :: l) :=
  h.quiet hc htype hsame (fun he => hevent ▸ he) (.inl (Nat.zero_le _)) (.inl (hlow ▸ Nat.zero_le _)) hok

/-- **A step of the socket thread.** No assertion fails. -/
theorem Live.socket_step {r : Result} (hclosing : m.closing = false)
    (hc : Counts m (.socket phase events :: l)) (h : Live m (.socket phase events :: l))
    (hstep : phase.step m events = some r) :
    ∃ m' t', r = some (m', t') ∧ (m'.closing = false → Live m' (t' :: l)) ∧
      (m'.closing = true → Closed m' (t' :: l)) := by
  -- most steps do not begin the close
  suffices hlive : (∃ m' t', r = some (m', t') ∧ m'.closing = false ∧ Live m' (t' :: l)) ∨
      ∃ m' t', r = some (m', t') ∧ m'.closing = true ∧ Closed m' (t' :: l) by
    rcases hlive with ⟨m', t', hr, hopen, hlive⟩ | ⟨m', t', hr, hclose, hclosed⟩
    · exact ⟨m', t', hr, fun _ => hlive, fun hbad => by simp [hopen] at hbad⟩
    · exact ⟨m', t', hr, fun hbad => by simp [hclose] at hbad, fun _ => hclosed⟩
  have hok := h.thread _ (List.mem_cons_self ..)
  have hself : m.sent = m.sent ∧ m.writing = m.writing ∧ m.dwBuffer = m.dwBuffer ∧ m.high = m.high ∧
      m.low = m.low ∧ m.commands = m.commands ∧ m.out = m.out ∧ m.wbSize = m.wbSize := by simp
  cases phase with
  | free locked =>
    cases hstep
    exact .inr ⟨_, _, rfl, rfl, h.free hc⟩
  | lock | invalid | unlockClosed => exact absurd hok (by simp [Thread.Ok, Phase.Ok])
  | poll =>
    left
    simp only [Phase.step] at hstep
    split at hstep
    · cases hstep
      refine ⟨_, _, rfl, hclosing, ?_⟩
      exact h.quiet hc h.type hself id (.inl (Nat.zero_le _)) (.inl (Nat.zero_le _)) trivial
    · cases hstep
      refine ⟨_, _, rfl, hclosing, ?_⟩
      rw [if_neg h.type]
      exact h.socket_quiet hc h.type hself rfl rfl trivial
    · cases hstep
      refine ⟨_, _, rfl, hclosing, ?_⟩
      rw [if_neg h.type]
      exact h.socket_quiet hc h.type hself rfl rfl trivial
    · split at hstep <;> cases hstep
      · exact ⟨_, _, rfl, hclosing, h.socket_quiet hc h.type hself rfl rfl trivial⟩
      · refine ⟨_, _, rfl, ?_, h.command hc (by assumption)⟩
        unfold sendSocket
        split
        · exact hclosing
        · repeat' split
          all_goals exact hclosing
      · rw [if_neg h.type]
        refine ⟨_, _, rfl, hclosing, h.socket_quiet hc h.type ?_ rfl rfl trivial⟩
        simp_all [Socket.commands, List.filterMap_cons]
  | dec =>
    left
    have hsending := hc.sending
    simp only [Phase.step] at hstep
    split at hstep
    case isTrue hzero =>
      simp [Thread.counted] at hsending
      omega
    case isFalse =>
      cases hstep
      exact ⟨_, _, rfl, hclosing, h.socket_quiet hc h.type hself rfl rfl trivial⟩
  | nomore again reads shutdown writes =>
    left
    have hhalf : SocketType.halfclose ≠ .invalid := by simp
    cases reads <;> simp only [Phase.step] at hstep
    · repeat' split at hstep
      all_goals cases hstep
      · exact ⟨_, _, rfl, hclosing, h.socket_quiet hc h.type hself rfl rfl trivial⟩
      · exact ⟨_, _, rfl, hclosing, h.socket_quiet hc h.type hself rfl rfl trivial⟩
      · exact ⟨_, _, rfl, hclosing, h.socket_quiet hc hhalf hself rfl rfl trivial⟩
      · exact ⟨_, _, rfl, hclosing, h.socket_quiet hc h.type hself rfl rfl trivial⟩
    · repeat' split at hstep
      all_goals cases hstep
      · exact ⟨_, _, rfl, hclosing, h.socket_quiet hc h.type hself rfl rfl trivial⟩
      · exact ⟨_, _, rfl, hclosing, h.socket_quiet hc hhalf hself rfl rfl trivial⟩
      · exact ⟨_, _, rfl, hclosing, h.socket_quiet hc h.type hself rfl rfl trivial⟩
      · exact ⟨_, _, rfl, hclosing, h.socket_quiet hc h.type hself rfl rfl trivial⟩
  | trylock shutdown writes =>
    left
    simp only [Phase.step] at hstep
    split at hstep <;> cases hstep
    · refine ⟨_, _, rfl, hclosing, h.socket_quiet hc h.type hself rfl rfl ?_⟩
      cases shutdown <;> trivial
    · exact ⟨_, _, rfl, hclosing, h.socket_quiet hc h.type hself rfl rfl trivial⟩
  | move shutdown writes =>
    left
    have hlow : listUncomplete m.move.low = false := by
      have hsame : m.move.low = m.low := by
        unfold Socket.move
        split <;> rfl
      have hfresh := h.low_fresh hc rfl rfl
      rw [hsame]
      cases hl : m.low with
      | nil => rfl
      | cons b bs => simp [listUncomplete, hfresh b (by simp [hl])]
    simp only [Phase.step, hlow, Bool.false_eq_true, if_false] at hstep
    cases hstep
    refine ⟨_, _, rfl, ?_, h.move hc⟩
    unfold Socket.move
    split <;> exact hclosing
  | list low shutdown writes =>
    left
    simp only [Phase.step] at hstep
    rcases sendListTcp_cases m low shutdown writes with ⟨ws, heq⟩ | heq | ⟨b, bs, n, ws, hlist, hn, heq⟩
    · rw [heq] at hstep
      cases hstep
      exact ⟨_, _, rfl, hclosing, h.quiet hc h.type hself id (.inl (Nat.zero_le _)) (.inl (Nat.zero_le _)) hok⟩
    · rw [heq] at hstep
      cases hstep
      exact ⟨_, _, rfl, hclosing, h.socket_quiet hc h.type hself rfl rfl trivial⟩
    · rw [heq, write_open hclosing] at hstep
      cases hstep
      refine ⟨_, _, rfl, ?_, ?_⟩
      · cases low <;> exact hclosing
      · refine h.list_write hc hlist hn ?_ ?_
        · exact Phase.advance_ok hok.1 hok.2
        · rintro rfl
          split <;> rfl
  | pop low shutdown writes =>
    left
    obtain ⟨-, -, b, bs, hlist, -⟩ := hok
    simp only [Phase.step, hlist] at hstep
    cases hstep
    refine ⟨_, _, rfl, ?_, h.pop hclosing hc hlist⟩
    rw [done_open hclosing]
    cases low <;> exact hclosing
  | after low shutdown writes =>
    left
    obtain ⟨hdw, hhigh⟩ := hok
    cases low with
    | false =>
      cases hstep
      refine ⟨_, _, rfl, hclosing, h.socket_quiet hc h.type hself rfl rfl ?_⟩
      split
      case isTrue => trivial
      case isFalse hnil =>
        have hnil : m.high = [] := by simpa using hnil
        split
        case isTrue => exact ⟨hdw, fun _ => hnil⟩
        case isFalse hlow => exact ⟨hdw, hnil, by simpa using hlow⟩
    | true =>
      simp only [Phase.step] at hstep
      split at hstep
      case h_1 hlow =>
        cases hstep
        refine ⟨_, _, rfl, hclosing, ?_⟩
        exact h.quiet hc h.type hself id (.inl (Nat.zero_le _)) (.inr (by simp [hlow])) ⟨hdw, hhigh rfl, hlow⟩
      case h_2 b low hlow =>
        split at hstep
        case isTrue =>
          rw [if_pos (hhigh rfl)] at hstep
          cases hstep
          exact ⟨_, _, rfl, hclosing, h.raise hc hlow⟩
        case isFalse hzero =>
          cases hstep
          refine ⟨_, _, rfl, hclosing, ?_⟩
          have hwriting := hc.writing_none rfl rfl
          have hfresh := h.fresh
          have hline : m.line = b :: low := by simp [Socket.line, hwriting, hdw, hhigh rfl, hlow]
          rw [hline] at hfresh
          refine h.quiet hc h.type hself id (.inl (Nat.zero_le _)) (.inr ?_) trivial
          intro c hmem
          rw [hlow] at hmem
          rcases List.mem_cons.mp hmem with rfl | hmem
          · simpa using hzero
          · exact hfresh c hmem
  | last shutdown =>
    left
    obtain ⟨hdw, hhigh, hlow⟩ := hok
    have hsize : m.wbSize = 0 := by simp [h.size, hhigh, hlow]
    rw [Phase.step, if_pos ⟨hhigh, hlow, hsize⟩] at hstep
    cases hstep
    refine ⟨_, _, rfl, hclosing, h.last hc ?_⟩
    split <;> trivial
  | unlock shutdown =>
    left
    cases hstep
    refine ⟨_, _, rfl, hclosing, h.socket_quiet hc h.type hself rfl rfl ?_⟩
    cases shutdown <;> trivial

end Socket

end SkynetEureka.SocketServer
