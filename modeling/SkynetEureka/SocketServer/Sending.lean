import SkynetEureka.SocketServer.Stream

/-!
# Sending on a TCP socket

The invariant holds in every interleaving of the calls with the socket thread.
-/

namespace SkynetEureka.SocketServer

open Lib

variable {m m' : Socket} {t t' : Thread} {l l' : List Thread} {events : List Event} {phase : Phase}
  {s : Threads Socket Thread} {as : List (Move Thread)} {r : Result}

/-! ## After the close has begun -/

/-- Nothing is added to the stream, and a socket that is invalid stays so. -/
theorem Closed.goes (h : Closed m (t :: l)) (hsent : m'.sent = m.sent) (hout : m'.out = m.out)
    (htype : m'.type = m.type ∨ m'.type = .invalid) (ht' : t'.Closed m') : Closed m' (t' :: l) := by
  constructor
  · obtain ⟨order, hprefix, hbytes, hrest⟩ := h.stream
    exact ⟨order, hsent ▸ hprefix, hout ▸ hbytes, hrest⟩
  · intro u hu
    rcases List.mem_cons.mp hu with rfl | hu
    · exact ht'
    · have hclosed := h.thread u (by simp [hu])
      rcases htype with hsame | hinvalid
      · cases u with
        | socket phase events => cases phase <;> simp_all [Thread.Closed, Phase.Closed]
        | _ => trivial
      · cases u with
        | socket phase events => cases phase <;> simp_all [Thread.Closed, Phase.Closed]
        | _ => trivial

theorem write_closing (h : m.closing = true) (bytes : List UInt8) :
    m.write bytes = { m with late := m.late ++ bytes } := by
  simp [Socket.write, h]

theorem done_closing (h : m.closing = true) (p : Package) :
    m.done p = { m with freed := m.freed ++ [p] } := by
  simp [Socket.done, h]

/-- **A step of a call.** -/
theorem Closed.call_step (hclosing : m.closing = true) (ht : t.isSocket = 0) (h : Closed m (t :: l))
    (hstep : t.step m = some (some (m', t'))) : m'.closing = true ∧ Closed m' (t' :: l) := by
  cases t with
  | send high bytes n =>
    simp only [Thread.step] at hstep
    split at hstep <;> cases hstep
    · exact ⟨hclosing, h.goes rfl rfl (.inl rfl) trivial⟩
    · refine ⟨hclosing, h.goes rfl rfl (.inl rfl) ?_⟩
      cases high <;> trivial
  | check again field p n =>
    cases hstep
    refine ⟨hclosing, h.goes rfl rfl (.inl rfl) ?_⟩
    cases again <;> cases field <;> simp only [Field.next] <;> split <;> trivial
  | trylock p n =>
    simp only [Thread.step] at hstep
    split at hstep <;> cases hstep <;> exact ⟨hclosing, h.goes rfl rfl (.inl rfl) trivial⟩
  | write p n =>
    simp only [Thread.step, write_closing hclosing] at hstep
    split at hstep
    · rw [done_closing (by exact hclosing)] at hstep
      cases hstep
      exact ⟨hclosing, h.goes rfl rfl (.inl rfl) trivial⟩
    · cases hstep
      exact ⟨hclosing, h.goes rfl rfl (.inl rfl) trivial⟩
  | count p =>
    simp only [Thread.step] at hstep
    split at hstep <;> cases hstep
    exact ⟨hclosing, h.goes rfl rfl (.inl rfl) trivial⟩
  | park id | arm id | unlock id | giveUp p | request p | close shutdown =>
    cases hstep
    exact ⟨hclosing, h.goes rfl rfl (.inl rfl) trivial⟩
  | socket phase events => simp [Thread.isSocket] at ht
  | ended => cases hstep

/-- **A step of the socket thread.** It ends the close, and then frees what it gets. -/
theorem Closed.socket_step (hclosing : m.closing = true) (hc : Counts m (.socket phase events :: l))
    (h : Closed m (.socket phase events :: l)) (hstep : phase.step m events = some r) :
    ∃ m' t', r = some (m', t') ∧ m'.closing = true ∧ Closed m' (t' :: l) := by
  have hok := h.thread _ (List.mem_cons_self ..)
  cases phase with
  | poll =>
    have htype : m.type = .invalid := hok
    simp only [Phase.step, htype, if_true] at hstep
    split at hstep
    · cases hstep
      exact ⟨_, _, rfl, hclosing, h.goes rfl rfl (.inl rfl) trivial⟩
    · cases hstep
      exact ⟨_, _, rfl, hclosing, h.goes rfl rfl (.inl rfl) htype⟩
    · cases hstep
      exact ⟨_, _, rfl, hclosing, h.goes rfl rfl (.inl rfl) htype⟩
    · split at hstep <;> cases hstep
      · exact ⟨_, _, rfl, hclosing, h.goes rfl rfl (.inl rfl) htype⟩
      · refine ⟨_, _, rfl, ?_⟩
        rw [sendSocket, if_pos (.inl rfl)]
        exact ⟨hclosing, h.goes rfl rfl (.inr rfl) rfl⟩
      · exact ⟨_, _, rfl, hclosing, h.goes rfl rfl (.inr rfl) rfl⟩
  | dec =>
    have hsending := hc.sending
    simp only [Phase.step] at hstep
    split at hstep
    case isTrue hzero =>
      simp [Thread.counted] at hsending
      omega
    case isFalse =>
      cases hstep
      exact ⟨_, _, rfl, hclosing, h.goes rfl rfl (.inl rfl) hok⟩
  | lock =>
    simp only [Phase.step] at hstep
    split at hstep <;> cases hstep
    exact ⟨_, _, rfl, hclosing, h.goes rfl rfl (.inl rfl) trivial⟩
  | invalid =>
    cases hstep
    exact ⟨_, _, rfl, hclosing, h.goes rfl rfl (.inr rfl) rfl⟩
  | unlockClosed =>
    cases hstep
    exact ⟨_, _, rfl, hclosing, h.goes rfl rfl (.inl rfl) hok⟩
  | _ => exact absurd hok (by simp [Thread.Closed, Phase.Closed])

/-! ## All interleavings -/

theorem Inv.perm (hperm : l.Perm l') (h : Inv m l) : Inv m l' :=
  ⟨h.1.perm hperm, fun hclosing => (h.2.1 hclosing).perm hperm, fun hclosing => (h.2.2 hclosing).perm hperm⟩

/-- **One step.** -/
theorem Inv.step (h : Inv m (t :: l)) (hstep : t.step m = some r) :
    ∃ m' t', r = some (m', t') ∧ Inv m' (t' :: l) := by
  obtain ⟨hc, hlive, hclosed⟩ := h
  cases ht : t.isSocket with
  | zero =>
    obtain ⟨m', t', rfl, hc'⟩ := hc.call_step ht hstep
    refine ⟨m', t', rfl, hc', ?_⟩
    cases hclosing : m.closing with
    | false =>
      obtain ⟨hopen, hlive'⟩ := (hlive hclosing).call_step hclosing ht hc hstep
      exact ⟨fun _ => hlive', fun hbad => by simp [hopen] at hbad⟩
    | true =>
      obtain ⟨hclose, hclosed'⟩ := (hclosed hclosing).call_step hclosing ht hstep
      exact ⟨fun hbad => by simp [hclose] at hbad, fun _ => hclosed'⟩
  | succ n =>
    cases t with
    | socket phase events =>
      cases hclosing : m.closing with
      | false =>
        obtain ⟨m', t', rfl, hlive', hclosed'⟩ := (hlive hclosing).socket_step hclosing hc hstep
        exact ⟨m', t', rfl, hc.socket_step hstep, hlive', hclosed'⟩
      | true =>
        obtain ⟨m', t', rfl, hclose, hclosed'⟩ := (hclosed hclosing).socket_step hclosing hc hstep
        exact ⟨m', t', rfl, hc.socket_step hstep, fun hbad => by simp [hclose] at hbad, fun _ => hclosed'⟩
    | _ => cases ht

theorem Inv.starts (h : Inv m l) (hstart : server.starts t = true) : Inv m (t :: l) := by
  obtain ⟨hc, hlive, hclosed⟩ := h
  have ht : t.package = none ∧ t.call = none ∧ t.holds = 0 ∧ t.counted = 0 ∧ t.isSocket = 0 ∧
      t.parks = 0 ∧ t.direct = false ∧ t.sendsLow = 0 ∧ t.arms = 0 ∧ t.Ok m ∧ t.Closed m := by
    cases t with
    | send | close => exact ⟨rfl, rfl, rfl, rfl, rfl, rfl, rfl, rfl, rfl, trivial, trivial⟩
    | _ => cases hstart
  obtain ⟨hpackage, hcall, hholds, hcounted, hsocket, hparks, hdirect, hsends, harms, hok, hclose⟩ := ht
  refine ⟨⟨?_, ?_, ?_, ?_, ?_, hc.seen, ?_, ?_, ?_⟩, fun hopen => ?_, fun hclosing => ?_⟩
  · simpa [Thread.calls, hcall] using hc.call
  · simpa [Thread.owns, hpackage] using hc.place
  · simpa [hholds] using hc.lock
  · simpa [hsocket] using hc.socket
  · simpa [hcounted] using hc.sending
  · simpa [hpackage] using hc.carried
  · simpa [hparks] using hc.writing
  · simpa [hdirect] using hc.direct
  · obtain ⟨htype, horder, hpriority, hout, hfresh, hlow, hsize, hlists, hdw, hthread⟩ := hlive hopen
    refine ⟨htype, horder, hpriority, hout, hfresh, ?_, hsize, hlists, ?_, ?_⟩
    · simpa [hsends] using hlow
    · simpa [harms] using hdw
    · simpa [hok] using hthread
  · refine ⟨(hclosed hclosing).stream, ?_⟩
    simpa [hclose] using (hclosed hclosing).thread

theorem Inv.init (events : List Event) : Inv connected [.socket .poll events] := by
  refine ⟨⟨?_, ?_, rfl, le_refl _, rfl, ?_, ?_, rfl, ?_⟩, fun _ => ?_, fun hbad => by cases hbad⟩
  · simp [Thread.calls, Thread.call, Thread.package, connected, issued]
  · simp [Thread.owns, Thread.package, connected, issued, Socket.packages, Socket.line, Socket.commands]
  · simp [connected, Socket.packages, Socket.line, Socket.commands]
  · simp [Thread.package]
  · simp [Thread.direct]
  · refine ⟨by simp [connected], List.Pairwise.nil, by simp [connected], rfl, ?_, ?_, rfl, ?_, ?_, ?_⟩
    · simp [Socket.line, connected]
    · simp [connected]
    · simp [connected]
    · simp [connected]
    · simp [Thread.Ok, Phase.Ok]

/-- While the socket is connected, nothing is freed unsent. -/
def Kept (m : Socket) : Prop := m.type = .connected → m.closing = false → m.freed = []

theorem Kept.send_socket {p : Package} {pipe : List Command} (h : Kept m) :
    Kept (sendSocket { m with pipe := pipe } p) := by
  unfold sendSocket
  split
  case isTrue htype =>
    intro hconnected
    rw [show m.type = .connected from hconnected] at htype
    simp at htype
  case isFalse =>
    repeat' split
    all_goals exact h

theorem Kept.done {p : Package} (h : Kept m) : Kept (m.done p) := by
  unfold Socket.done
  split
  case isTrue hclosing => exact fun _ hopen => by simp [hclosing] at hopen
  case isFalse => exact h

theorem Kept.write {bytes : List UInt8} (h : Kept m) : Kept (m.write bytes) := by
  unfold Socket.write
  split <;> exact h

theorem Kept.step (h : Kept m) (hstep : t.step m = some (some (m', t'))) : Kept m' := by
  cases t with
  | send high bytes n =>
    simp only [Thread.step] at hstep
    split at hstep
    case isTrue htype =>
      cases hstep
      intro hconnected
      rw [show m.type = .connected from hconnected] at htype
      cases htype
    case isFalse =>
      cases hstep
      exact h
  | write p n =>
    simp only [Thread.step] at hstep
    split at hstep <;> cases hstep
    · exact h.write.done
    · exact h.write
  | trylock p n | count p =>
    simp only [Thread.step] at hstep
    split at hstep <;> cases hstep <;> exact h
  | check | park | arm | unlock | giveUp | request | close =>
    cases hstep
    exact h
  | socket phase events =>
    cases phase with
    | poll =>
      simp only [Thread.step, Phase.step] at hstep
      repeat' split at hstep
      all_goals cases hstep
      all_goals first | exact h.send_socket | exact h
    | move shutdown writes =>
      simp only [Thread.step, Phase.step, Option.some.injEq] at hstep
      split at hstep <;> cases hstep
      unfold Socket.move
      split <;> exact h
    | list low shutdown writes =>
      simp only [Thread.step, Phase.step] at hstep
      rcases sendListTcp_cases m low shutdown writes with ⟨ws, heq⟩ | heq | ⟨b, bs, n, ws, -, -, heq⟩
      · rw [heq] at hstep
        cases hstep
        exact h
      · rw [heq] at hstep
        cases hstep
        exact h
      · rw [heq] at hstep
        cases hstep
        cases low <;> exact h.write
    | pop low shutdown writes =>
      simp only [Thread.step, Phase.step] at hstep
      split at hstep <;> cases hstep
      cases low <;> exact h.done
    | free locked =>
      cases hstep
      intro _ hopen
      cases hopen
    | invalid =>
      cases hstep
      intro hconnected
      cases hconnected
    | nomore again reads shutdown writes =>
      cases reads <;> simp only [Thread.step, Phase.step] at hstep
      all_goals repeat' split at hstep
      all_goals cases hstep
      all_goals first | exact h | (intro hconnected; cases hconnected)
    | after low shutdown writes =>
      cases low <;> simp only [Thread.step, Phase.step, Option.some.injEq] at hstep
      · cases hstep
        exact h
      · repeat' split at hstep
        all_goals cases hstep
        all_goals exact h
    | dec | trylock | last | unlock | lock | unlockClosed =>
      simp only [Thread.step, Phase.step, Option.some.injEq] at hstep
      repeat' split at hstep
      all_goals cases hstep
      all_goals exact h
  | ended => cases hstep

theorem Inv.run (hrun : run server.step (start events) as = some s) :
    s.fault = false ∧ Inv s.mem s.threads ∧ Kept s.mem := by
  have hok : Guarded server.step (Meets fun _ _ _ => True) (start events) as :=
    guarded_of_forall fun s a => by cases a <;> simp [Meets]
  refine Program.run_safe (I := fun m l => Inv m l ∧ Kept m) (fun _ _ _ hperm h => ⟨h.1.perm hperm, h.2⟩)
    (fun _ _ _ h ht => ⟨h.1.starts ht, h.2⟩) ?_ ⟨rfl, Inv.init events, fun _ _ => rfl⟩ hok hrun
  intro m t l r h _ hr
  obtain ⟨r', hstep, rfl⟩ := Option.map_eq_some_iff.mp hr
  obtain ⟨m', t', rfl, hinv⟩ := h.1.step hstep
  exact ⟨m', t', [], rfl, hinv, h.2.step hstep⟩

/-! ## A run -/

/-- A package of three bytes, of which a direct write takes one; then one of low priority, by the pipe. -/
def sends : List (Move Thread) :=
  .start (.send true [1, 2, 3] 1) :: List.replicate 16 (.go 1) ++
    .start (.send false [9] 0) :: List.replicate 3 (.go 2)

/-- The socket thread executes the command, and writes one byte and then the rest. -/
def writes : List Event :=
  [.command [], .writable [.accepts 1, .again], .writable [.accepts 5, .accepts 5]]

/-- A connection that breaks while a buffer is written in part: `force_close` has freed the lists and waits
for the lock, and a caller finds nothing to send and writes. Its bytes come after a part of a package. -/
theorem written_late :
    (run server.step (start [.command [], .writable [.accepts 1], .broken])
      (.start (.send false [1, 2] 0) :: List.replicate 3 (.go 1) ++ List.replicate 10 (.go 0) ++
        .start (.send true [7] 1) :: List.replicate 13 (.go 2))).map (fun s => (s.mem.out, s.mem.late)) =
      some ([1], [7]) := by decide +kernel

/-! ## Results -/

end SkynetEureka.SocketServer
