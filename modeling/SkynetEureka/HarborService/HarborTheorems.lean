import SkynetEureka.HarborService.Harbor

/-!
# What the functions of the harbor service do

One lemma for each function: what becomes of the slave or the node, and which messages with a
stamp are passed on.
-/

namespace SkynetEureka.HarborService

open Function

/-- The stamp of the message that a call passes on. -/
def Effect.stamp : Effect → Option ℕ
  | .deliver _ _ _ _ _ stamp => stamp
  | .sendRemote _ _ m => some m.stamp
  | _ => none

/-- No message of a local service is passed on. -/
def Quiet (es : List Effect) : Prop := ∀ e ∈ es, e.stamp = none

theorem quiet_nil : Quiet [] := by simp [Quiet]

theorem Quiet.append {es es' : List Effect} (h : Quiet es) (h' : Quiet es') :
    Quiet (es ++ es') := by
  intro e he
  obtain he | he := List.mem_append.mp he
  · exact h e he
  · exact h' e he

theorem Quiet.cons {e : Effect} {es : List Effect} (he : e.stamp = none) (h : Quiet es) :
    Quiet (e :: es) := by
  intro e' he'
  obtain rfl | he' := List.mem_cons.mp he'
  · exact he
  · exact h e' he'

/-! ## Reading -/

/-- The slave has read from its socket: at most the connection is closed. -/
structure HasRead (s s' : Slave) : Prop where
  fd : s'.fd = s.fd
  status : s'.status = .header ∨ s'.status = .content ∨ s'.status = .down
  queue : s'.queue = s.queue ∨ s'.status = .down ∧ s'.queue = none

theorem HasRead.trans {s s' s'' : Slave} (h : HasRead s s') (h' : HasRead s' s'')
    (hqueue : s'.queue = s.queue) : HasRead s s'' where
  fd := h'.fd.trans h.fd
  status := h'.status
  queue := by
    rw [← hqueue]
    exact h'.queue

variable {hid : ℕ} {alive : ℕ → Bool} {id : ℕ} {s : Slave} {buffer : List UInt8}

theorem forwardLocalMessage_quiet (msg : List UInt8) :
    Quiet (forwardLocalMessage id alive msg) := by
  unfold forwardLocalMessage
  split
  · exact quiet_nil.cons rfl
  · apply Quiet.cons rfl
    split
    · exact quiet_nil
    · split
      · exact (quiet_nil.cons rfl).append (quiet_nil.cons rfl)
      · exact quiet_nil.append (quiet_nil.cons rfl)

theorem closeHarbor_quiet (s : Slave) : Quiet (closeHarbor s).2 := by
  unfold closeHarbor
  show Quiet (if s.fd ≠ 0 then [.socketClose s.fd] else [])
  split
  · exact quiet_nil.cons rfl
  · exact quiet_nil

/-- What a round of the loop does. -/
structure RoundReads (s : Slave) (result : Slave × List Effect × Option (List UInt8)) : Prop where
  reads : HasRead s result.1
  quiet : Quiet result.2.1
  more : result.2.2 ≠ none → result.1.status = .header ∧ result.1.queue = s.queue

theorem pushContent_reads (hid : ℕ) (alive : ℕ → Bool) (buffer : List UInt8)
    (hstatus : s.status = .content) : RoundReads s (pushContent hid alive s buffer) := by
  rw [pushContent]
  split
  · exact ⟨⟨rfl, .inr (.inl hstatus), .inl rfl⟩, quiet_nil, by simp⟩
  · exact ⟨⟨rfl, .inl rfl, .inl rfl⟩, forwardLocalMessage_quiet _, fun _ => ⟨rfl, rfl⟩⟩

theorem pushHeader_reads (hid : ℕ) (alive : ℕ → Bool) (id : ℕ) (buffer : List UInt8)
    (hstatus : s.status = .header) : RoundReads s (pushHeader hid alive id s buffer) := by
  rw [pushHeader]
  split
  · exact ⟨⟨rfl, .inl hstatus, .inl rfl⟩, quiet_nil, by simp⟩
  · dsimp only
    split
    · exact ⟨⟨rfl, .inr (.inr rfl), .inr ⟨rfl, rfl⟩⟩, (closeHarbor_quiet _).cons rfl, by simp⟩
    · split
      · exact ⟨⟨rfl, .inr (.inl rfl), .inl rfl⟩, quiet_nil, by simp⟩
      · obtain ⟨hreads, hquiet, hmore⟩ := pushContent_reads hid alive (buffer.drop (4 - s.read))
          (s := startContent { s with
            size := s.size.take s.read ++ buffer.take (4 - s.read) }) rfl
        exact ⟨⟨hreads.fd, hreads.status, hreads.queue⟩, hquiet, hmore⟩

/-- The rest of the loop after a round. -/
def goOn (hid : ℕ) (alive : ℕ → Bool) (id fuel : ℕ) :
    Slave × List Effect × Option (List UInt8) → Slave × List Effect
  | (s, es, none) => (s, es)
  | (s, es, some buffer) =>
    ((pushLoop hid alive id fuel s buffer).1, es ++ (pushLoop hid alive id fuel s buffer).2)

theorem pushLoop_header {fuel : ℕ} (hstatus : s.status = .header) :
    pushLoop hid alive id (fuel + 1) s buffer =
      goOn hid alive id fuel (pushHeader hid alive id s buffer) := by
  rewrite [pushLoop, hstatus]
  rfl

theorem pushLoop_content {fuel : ℕ} (hstatus : s.status = .content) :
    pushLoop hid alive id (fuel + 1) s buffer =
      goOn hid alive id fuel (pushContent hid alive s buffer) := by
  rewrite [pushLoop, hstatus]
  rfl

/-- The loop reads. -/
theorem pushLoop_reads {fuel : ℕ} (hstatus : s.status = .header ∨ s.status = .content) :
    HasRead s (pushLoop hid alive id fuel s buffer).1 ∧
      Quiet (pushLoop hid alive id fuel s buffer).2 := by
  induction fuel generalizing s buffer with
  | zero => exact ⟨⟨rfl, hstatus.imp_right .inl, .inl rfl⟩, quiet_nil⟩
  | succ fuel ih =>
    have hround : ∃ result, RoundReads s result ∧
        pushLoop hid alive id (fuel + 1) s buffer = goOn hid alive id fuel result := by
      obtain hstatus | hstatus := hstatus
      · exact ⟨_, pushHeader_reads hid alive id buffer hstatus, pushLoop_header hstatus⟩
      · exact ⟨_, pushContent_reads hid alive buffer hstatus, pushLoop_content hstatus⟩
    obtain ⟨⟨s', es, more⟩, ⟨hreads, hquiet, hmore⟩, hloop⟩ := hround
    rw [hloop]
    cases more with
    | none => exact ⟨hreads, hquiet⟩
    | some rest =>
      obtain ⟨hheader, hqueue⟩ := hmore (by simp)
      obtain ⟨hreads', hquiet'⟩ := @ih _ rest (.inl hheader)
      exact ⟨hreads.trans hreads' hqueue, hquiet.append hquiet'⟩

/-- `dispatch_queue` writes the queue of the slave to its socket. -/
theorem dispatchQueue_eq (s : Slave) : dispatchQueue s =
    ({ s with queue := none }, (s.queue.getD []).map (.sendRemote s.fd s.status)) := by
  rw [dispatchQueue]
  cases hq : s.queue with
  | none =>
    obtain ⟨fd, queue, status, length, read, size, recvBuffer⟩ := s
    subst hq
    rfl
  | some queue => rfl

/-- The socket stays the same. -/
theorem pushSlave_fd : (pushSlave hid alive id s buffer).1.fd = s.fd := by
  unfold pushSlave
  split
  · unfold pushHandshake
    dsimp only
    split
    · rfl
    · rw [dispatchQueue_eq]
      exact (pushLoop_reads (.inl rfl)).1.fd
  · next hstatus =>
    by_cases hreads : s.status = .header ∨ s.status = .content
    · exact (pushLoop_reads hreads).1.fd
    · rw [pushRounds, pushLoop]
      cases hs : s.status with
      | header => exact (hreads (.inl hs)).elim
      | content => exact (hreads (.inr hs)).elim
      | wait => rfl
      | handshake => rfl
      | down => rfl

end SkynetEureka.HarborService
