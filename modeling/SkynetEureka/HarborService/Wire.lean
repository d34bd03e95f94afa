import SkynetEureka.HarborService.HarborTheorems

/-!
# The wire between two harbors

`send_remote` writes a length of four bytes, the message and its cookie; `push_socket_data` reads
them from chunks of any size, but takes only lengths below 2^24.
-/

namespace SkynetEureka.HarborService

open Function

/-! ## Big-endian numbers -/

theorem fromBigendian_eq (b₀ b₁ b₂ b₃ : UInt8) (rest : List UInt8) :
    fromBigendian (b₀ :: b₁ :: b₂ :: b₃ :: rest) =
      b₀.toNat * 2 ^ 24 + b₁.toNat * 2 ^ 16 + b₂.toNat * 2 ^ 8 + b₃.toNat := by
  have h₁ := b₁.toNat_lt
  have h₂ := b₂.toNat_lt
  have h₃ := b₃.toNat_lt
  show b₀.toNat <<< 24 ||| b₁.toNat <<< 16 ||| b₂.toNat <<< 8 ||| b₃.toNat = _
  rw [Nat.or_assoc, Nat.or_assoc, ← Nat.shiftLeft_add_eq_or_of_lt h₃, ←
    Nat.shiftLeft_add_eq_or_of_lt (a := b₁.toNat) (b := b₂.toNat <<< 8 + b₃.toNat) (by
      rw [Nat.shiftLeft_eq]
      omega), ← Nat.shiftLeft_add_eq_or_of_lt (by
      rw [Nat.shiftLeft_eq, Nat.shiftLeft_eq]
      omega)]
  rw [Nat.shiftLeft_eq, Nat.shiftLeft_eq, Nat.shiftLeft_eq]
  omega

theorem fromBigendian_toBigendian {n : ℕ} (h : n < 2 ^ 32) (rest : List UInt8) :
    fromBigendian (toBigendian n ++ rest) = n := by
  rw [toBigendian]
  simp only [List.cons_append, List.nil_append]
  rw [fromBigendian_eq]
  simp only [UInt8.toNat_ofNat', Nat.shiftRight_eq_div_pow]
  omega

theorem length_toBigendian (n : ℕ) : (toBigendian n).length = 4 := rfl

theorem length_headerToMessage (header : Header) :
    (headerToMessage header).length = headerCookieLength := rfl

/-! ## Packets -/

/-- A message that `send_remote` accepts. -/
structure Sent where
  header : Header
  buffer : List UInt8
  source_lt : header.source < 2 ^ 32
  destination_lt : header.destination < 2 ^ 32
  session_lt : header.session < 2 ^ 32
  size_le : buffer.length + headerCookieLength ≤ uint32Max

/-- The message and its cookie. -/
def Sent.content (m : Sent) : List UInt8 := m.buffer ++ headerToMessage m.header

def Sent.packet (m : Sent) : List UInt8 := toBigendian m.content.length ++ m.content

/-- The bytes of a connection. -/
def stream (ms : List Sent) : List UInt8 := ms.flatMap Sent.packet

/-- The length of the packet has three bytes. -/
def Sent.Small (m : Sent) : Prop := m.buffer.length + headerCookieLength < 2 ^ 24

/-- What the peer has to pass on. -/
def Sent.delivered (id : ℕ) (m : Sent) : Effect :=
  .deliver m.header.source ((m.header.destination &&& handleMask) ||| id <<< handleRemoteShift)
    (m.header.destination >>> handleRemoteShift) m.header.session m.buffer none

namespace Sent

variable (m : Sent)

theorem length_content : m.content.length = m.buffer.length + headerCookieLength := by
  rw [content, List.length_append, length_headerToMessage]

theorem length_pos : 0 < m.content.length := by
  rw [length_content, headerCookieLength]
  omega

/-- Exactly this is written to the socket. -/
theorem sendRemote_eq : sendRemote m.buffer m.header = some m.packet := by
  rw [sendRemote, if_neg (not_lt.mpr m.size_le), packet, length_content, content,
    List.append_assoc]

theorem messageToHeader_eq : messageToHeader (headerToMessage m.header) = m.header := by
  obtain ⟨⟨source, destination, session⟩, buffer, hsource, hdestination, hsession, -⟩ := m
  rw [messageToHeader, headerToMessage, List.append_assoc,
    fromBigendian_toBigendian hsource, List.drop_left' (length_toBigendian _),
    fromBigendian_toBigendian hdestination]
  have hdrop : (toBigendian source ++ (toBigendian destination ++ toBigendian session)).drop 8 =
      toBigendian session ++ [] := rfl
  rw [hdrop, fromBigendian_toBigendian hsession]

/-- The peer takes the cookie off the end of the message. -/
theorem forwardLocalMessage_eq (id : ℕ) (alive : ℕ → Bool) :
    ∃ es, forwardLocalMessage id alive m.content = m.delivered id :: es ∧
      ∀ e ∈ es, (∃ destination session, e = .answer destination m.header.source session) ∨
        ∃ destination type, e = .error (.unknownDestination destination m.header.source type) := by
  have hlen := m.length_content
  have hcookie : m.content.drop (m.content.length - headerCookieLength) =
      headerToMessage m.header := by
    rw [hlen, Nat.add_sub_cancel, content, List.drop_left]
  have hbuffer : m.content.take (m.content.length - headerCookieLength) = m.buffer := by
    rw [hlen, Nat.add_sub_cancel, content, List.take_left]
  have hlong : ¬m.content.length < headerCookieLength := by omega
  rw [forwardLocalMessage, if_neg hlong]
  simp only [hcookie, hbuffer, m.messageToHeader_eq]
  refine ⟨_, rfl, ?_⟩
  intro e he
  split_ifs at he
  · cases he
  · obtain he | he := List.mem_append.mp he
    · exact .inl ⟨_, _, List.mem_singleton.mp he⟩
    · exact .inr ⟨_, _, List.mem_singleton.mp he⟩
  · obtain he | he := List.mem_append.mp he
    · cases he
    · exact .inr ⟨_, _, List.mem_singleton.mp he⟩

/-- The first byte of a length is 0 exactly when three bytes suffice for it. -/
theorem small_iff : m.Small ↔ (toBigendian m.content.length).getD 0 0 = 0 := by
  have hle := m.size_le
  rw [Small, ← length_content] at *
  show _ ↔ UInt8.ofNat (m.content.length >>> 24) = 0
  rw [← UInt8.toNat_inj, UInt8.toNat_ofNat', Nat.shiftRight_eq_div_pow]
  unfold uint32Max at hle
  show _ ↔ _ = 0
  omega

/-- The other three bytes are read as the length. -/
theorem length_read (h : m.Small) :
    ((toBigendian m.content.length).getD 1 0).toNat <<< 16 |||
      ((toBigendian m.content.length).getD 2 0).toNat <<< 8 |||
      ((toBigendian m.content.length).getD 3 0).toNat = m.content.length := by
  have hzero := m.small_iff.mp h
  rw [Small, ← length_content] at h
  have hread := fromBigendian_toBigendian (h.trans (by decide)) []
  rw [List.append_nil, fromBigendian, hzero] at hread
  simpa using hread

end Sent

theorem stream_cons (m : Sent) (ms : List Sent) : stream (m :: ms) = m.packet ++ stream ms :=
  List.flatMap_cons

theorem stream_append (ms ms' : List Sent) : stream (ms ++ ms') = stream ms ++ stream ms' :=
  List.flatMap_append

/-! ## Reading -/

section Reading

variable {hid : ℕ} {alive : ℕ → Bool} {id : ℕ} {s : Slave} {m : Sent} {ms : List Sent}
  {buffer later rest body : List UInt8}

/-- The slave has read a part of a length. -/
def HoldsSize (s : Slave) (rest : List UInt8) : Prop :=
  s.status = .header ∧ rest.length < 4 ∧ s.read = rest.length ∧ s.size.take s.read = rest

/-- The slave has read the length of a message and a part of it. -/
def HoldsBody (s : Slave) (m : Sent) (body : List UInt8) : Prop :=
  s.status = .content ∧ s.length = m.content.length ∧ body.length < m.content.length ∧
    s.read = body.length ∧ s.recvBuffer.take s.read = body

/-- The slave has read the part `rest` of the messages that follow. -/
def Holding (s : Slave) (ms : List Sent) (rest : List UInt8) : Prop :=
  HoldsSize s rest ∨
  ∃ m ms' body, ms = m :: ms' ∧ m.Small ∧ rest = toBigendian m.content.length ++ body ∧
    HoldsBody s m body

/-- The peer has passed on the messages `ms`. -/
def Forwarded (hid : ℕ) (alive : ℕ → Bool) (ms : List Sent) (es : List Effect) : Prop :=
  es = ms.flatMap fun m => forwardLocalMessage hid alive m.content

/-- What comes of the messages that follow: some are passed on, up to all that have come, or up to
one that is too long. -/
def Outcome (hid : ℕ) (alive : ℕ → Bool) (id : ℕ) (ms : List Sent) (later : List UInt8)
    (s : Slave) (es : List Effect) : Prop :=
  (∃ passed ms' rest, ms = passed ++ ms' ∧ (∀ m ∈ passed, m.Small) ∧ Forwarded hid alive passed es ∧
    rest ++ later = stream ms' ∧ Holding s ms' rest) ∨
  (s.status = .down ∧ .error (.tooLong id) ∈ es ∧ ∃ m ∈ ms, ¬m.Small)

/-- What comes of one round of the loop. -/
def Round (hid : ℕ) (alive : ℕ → Bool) (id : ℕ) (ms : List Sent) (later buffer : List UInt8)
    (result : Slave × List Effect × Option (List UInt8)) : Prop :=
  match result with
  | (s, es, none) => Outcome hid alive id ms later s es
  | (s, es, some rest) => ∃ m ms', ms = m :: ms' ∧ m.Small ∧
      es = forwardLocalMessage hid alive m.content ∧ HoldsSize s [] ∧ rest ++ later = stream ms' ∧
      rest.length < buffer.length

theorem Round.mono {buffer' : List UInt8} {result : Slave × List Effect × Option (List UInt8)}
    (hround : Round hid alive id ms later buffer' result) (hle : buffer'.length ≤ buffer.length) :
    Round hid alive id ms later buffer result := by
  obtain ⟨s, es, more⟩ := result
  cases more with
  | none => exact hround
  | some rest =>
    obtain ⟨m, ms', hms, hsmall, hes, hsize, hbytes, hlt⟩ := hround
    exact ⟨m, ms', hms, hsmall, hes, hsize, hbytes, hlt.trans_le hle⟩

/-- The content of a message. -/
theorem pushContent_round (hs : HoldsBody s m body) (hsmall : m.Small)
    (hbytes : body ++ buffer ++ later = m.content ++ stream ms) :
    Round hid alive id (m :: ms) later buffer (pushContent hid alive s buffer) := by
  obtain ⟨hstatus, hlen, hlt, hread, hrecv⟩ := hs
  rw [hread] at hrecv
  rw [pushContent]
  simp only [hlen, hread, hrecv]
  by_cases hshort : buffer.length < m.content.length - body.length
  · simp only [if_pos hshort]
    refine .inl ⟨[], m :: ms, toBigendian m.content.length ++ (body ++ buffer), rfl, by simp, rfl,
      ?_, .inr ⟨m, ms, body ++ buffer, rfl, hsmall, rfl, hstatus, rfl, ?_, ?_, ?_⟩⟩
    · rw [List.append_assoc, hbytes, stream_cons, Sent.packet, List.append_assoc]
    · rw [List.length_append]
      omega
    · rw [List.length_append]
    · show (body ++ buffer).take (body.length + buffer.length) = body ++ buffer
      rw [← List.length_append, List.take_length]
  · have hsplit : body ++ buffer.take (m.content.length - body.length) = m.content ∧
        buffer.drop (m.content.length - body.length) ++ later = stream ms := by
      apply List.append_inj
      · rw [← hbytes, List.append_assoc, List.append_assoc, ← List.append_assoc (List.take _ _),
          List.take_append_drop]
      · rw [List.length_append, List.length_take]
        omega
    obtain ⟨hcontent, hrest⟩ := hsplit
    have hsize : HoldsSize { s with length := 0, read := 0, recvBuffer := [], status := .header }
        [] := ⟨rfl, by decide, rfl, rfl⟩
    simp only [if_neg hshort, hcontent]
    by_cases hnil : (buffer.drop (m.content.length - body.length)).length = 0
    · rw [if_pos hnil]
      refine .inl ⟨[m], ms, [], rfl, by simpa using hsmall, ?_, ?_, .inl hsize⟩
      · rw [Forwarded, List.flatMap_singleton]
      · rw [← hrest, List.length_eq_zero_iff.mp hnil]
    · rw [if_neg hnil]
      refine ⟨m, ms, rfl, hsmall, rfl, hsize, hrest, ?_⟩
      rw [List.length_drop] at hnil ⊢
      omega

/-- The length of a message, and what follows it in the chunk. -/
theorem pushHeader_round (hs : HoldsSize s rest) (hbytes : rest ++ buffer ++ later = stream ms) :
    Round hid alive id ms later buffer (pushHeader hid alive id s buffer) := by
  obtain ⟨hstatus, hlt, hread, hsize⟩ := hs
  rw [hread] at hsize
  rw [pushHeader]
  simp only [hread, hsize]
  by_cases hshort : buffer.length < 4 - rest.length
  · simp only [if_pos hshort]
    refine .inl ⟨[], ms, rest ++ buffer, rfl, by simp, rfl, hbytes, .inl ⟨hstatus, ?_, ?_, ?_⟩⟩
    · rw [List.length_append]
      omega
    · rw [List.length_append]
    · show (rest ++ buffer).take (rest.length + buffer.length) = rest ++ buffer
      rw [← List.length_append, List.take_length]
  · simp only [if_neg hshort]
    cases ms with
    | nil =>
      have hnil := congrArg List.length hbytes
      rw [List.length_append, List.length_append] at hnil
      change _ = 0 at hnil
      omega
    | cons m ms =>
      have hsplit : rest ++ buffer.take (4 - rest.length) = toBigendian m.content.length ∧
          buffer.drop (4 - rest.length) ++ later = m.content ++ stream ms := by
        apply List.append_inj
        · rw [stream_cons, Sent.packet, List.append_assoc, List.append_assoc] at hbytes
          rw [← hbytes, List.append_assoc, ← List.append_assoc (List.take _ _),
            List.take_append_drop]
        · rw [List.length_append, List.length_take, length_toBigendian]
          omega
      obtain ⟨hfour, hrest⟩ := hsplit
      simp only [hfour]
      by_cases hsmall : m.Small
      · simp only [m.small_iff.mp hsmall, ne_eq, not_true_eq_false, if_false]
        have hbody : HoldsBody (startContent { s with size := toBigendian m.content.length }) m
            [] := ⟨rfl, m.length_read hsmall, m.length_pos, rfl, rfl⟩
        by_cases hnil : (buffer.drop (4 - rest.length)).length = 0
        · rw [if_pos hnil]
          refine .inl ⟨[], m :: ms, toBigendian m.content.length ++ [], rfl, by simp, rfl, ?_,
            .inr ⟨m, ms, [], rfl, hsmall, rfl, hbody⟩⟩
          rw [List.length_eq_zero_iff.mp hnil, List.nil_append] at hrest
          rw [List.append_nil, hrest, stream_cons, Sent.packet, List.append_assoc]
        · rw [if_neg hnil]
          have hround : Round hid alive id (m :: ms) later _ _ :=
            pushContent_round hbody hsmall hrest
          exact hround.mono (by
            rw [List.length_drop]
            omega)
      · rw [if_pos (fun heq => hsmall (m.small_iff.mpr heq))]
        exact .inr ⟨rfl, by simp, m, by simp, hsmall⟩

/-- A message is passed on before the others. -/
theorem Outcome.cons {es : List Effect} (hsmall : m.Small)
    (ho : Outcome hid alive id ms later s es) :
    Outcome hid alive id (m :: ms) later s
      (forwardLocalMessage hid alive m.content ++ es) := by
  obtain ⟨passed, ms', rest, rfl, hall, hes, hbytes, hholds⟩ | ⟨hdown, hlong, m', hm', hbig⟩ := ho
  · refine .inl ⟨m :: passed, ms', rest, rfl, List.forall_mem_cons.mpr ⟨hsmall, hall⟩, ?_, hbytes,
      hholds⟩
    rw [Forwarded, List.flatMap_cons, hes]
  · exact .inr ⟨hdown, List.mem_append_right _ hlong, m', List.mem_cons_of_mem _ hm', hbig⟩

/-- Messages are passed on before the others. -/
theorem Outcome.append {passed : List Sent} {es es' : List Effect} (hall : ∀ m ∈ passed, m.Small)
    (hes : Forwarded hid alive passed es) (ho : Outcome hid alive id ms later s es') :
    Outcome hid alive id (passed ++ ms) later s (es ++ es') := by
  subst hes
  induction passed with
  | nil => exact ho
  | cons m passed ih =>
    obtain ⟨hsmall, hall⟩ := List.forall_mem_cons.mp hall
    rw [List.flatMap_cons, List.append_assoc]
    exact (ih hall).cons hsmall

/-- **The loop** passes on what is complete. -/
theorem pushLoop_outcome {fuel : ℕ} (hfuel : buffer.length < fuel) (hs : Holding s ms rest)
    (hbytes : rest ++ buffer ++ later = stream ms) :
    Outcome hid alive id ms later (pushLoop hid alive id fuel s buffer).1
      (pushLoop hid alive id fuel s buffer).2 := by
  induction fuel generalizing s ms rest buffer with
  | zero => omega
  | succ fuel ih =>
    have hround : ∃ result, Round hid alive id ms later buffer result ∧
        pushLoop hid alive id (fuel + 1) s buffer = goOn hid alive id fuel result := by
      obtain hsize | ⟨m, ms', body, rfl, hsmall, rfl, hbody⟩ := hs
      · exact ⟨_, pushHeader_round hsize hbytes, pushLoop_header hsize.1⟩
      · refine ⟨_, @pushContent_round hid alive id _ _ _ buffer later _ hbody hsmall ?_,
          pushLoop_content hbody.1⟩
        rw [stream_cons, Sent.packet] at hbytes
        simp only [List.append_assoc] at hbytes ⊢
        exact List.append_cancel_left hbytes
    obtain ⟨⟨s', es, more⟩, hround, hloop⟩ := hround
    rw [hloop]
    cases more with
    | none => exact hround
    | some rest' =>
      obtain ⟨m, ms', rfl, hsmall, rfl, hsize, hbytes', hlt⟩ := hround
      exact (ih (by omega) (.inl hsize) (by rwa [List.nil_append])).cons hsmall

end Reading

/-! ## A connection -/

/-- The chunks of one socket, one after another. -/
def feed (alive : ℕ → Bool) (fd : ℕ) : Harbor → List (List UInt8) → Harbor × List Effect
  | h, [] => (h, [])
  | h, chunk :: chunks =>
    let (h, es) := pushSocketData h alive fd chunk
    ((feed alive fd h chunks).1, es ++ (feed alive fd h chunks).2)

/-- The chunks of one slave. -/
def feedSlave (hid : ℕ) (alive : ℕ → Bool) (id : ℕ) :
    Slave → List (List UInt8) → Slave × List Effect
  | s, [] => (s, [])
  | s, chunk :: chunks =>
    let (s, es) := pushSlave hid alive id s chunk
    ((feedSlave hid alive id s chunks).1, es ++ (feedSlave hid alive id s chunks).2)

/-- A message that is passed on to a local service. -/
def Effect.isDeliver : Effect → Bool
  | .deliver .. => true
  | _ => false

/-- The peer passes on exactly the messages `ms`; it does not close the connection and reports no
message as too long. -/
def Agreed (id : ℕ) (ms : List Sent) (es : List Effect) : Prop :=
  es.filter Effect.isDeliver = ms.map (Sent.delivered id) ∧
    (∀ fd, .socketClose fd ∉ es) ∧ ∀ id, .error (.tooLong id) ∉ es

section Feed

variable {hid : ℕ} {alive : ℕ → Bool} {id : ℕ} {s : Slave} {ms : List Sent}
  {chunks : List (List UInt8)} {rest later : List UInt8}

theorem feedSlave_down (hs : s.status = .down) : feedSlave hid alive id s chunks = (s, []) := by
  induction chunks with
  | nil => rfl
  | cons chunk chunks ih =>
    have hpush : pushSlave hid alive id s chunk = (s, []) := by
      rw [pushSlave, hs]
      simp only [pushRounds, pushLoop, hs]
    rw [feedSlave, hpush]
    simp only [ih, List.nil_append]

/-- **All chunks of a slave.** -/
theorem feedSlave_outcome (hs : Holding s ms rest)
    (hbytes : rest ++ chunks.flatten ++ later = stream ms) :
    Outcome hid alive id ms later (feedSlave hid alive id s chunks).1
      (feedSlave hid alive id s chunks).2 := by
  induction chunks generalizing s ms rest with
  | nil =>
    rw [List.flatten_nil, List.append_nil] at hbytes
    exact .inl ⟨[], ms, rest, rfl, by simp, rfl, hbytes, hs⟩
  | cons chunk chunks ih =>
    have hstatus : s.status ≠ .handshake := by
      obtain hsize | ⟨_, _, _, -, -, -, hbody⟩ := hs
      · rw [hsize.1]
        decide
      · rw [hbody.1]
        decide
    have hpush : pushSlave hid alive id s chunk =
        pushLoop hid alive id (pushRounds chunk) s chunk := by
      unfold pushSlave
      split
      · next heq => exact (hstatus heq).elim
      · rfl
    have hround : chunk.length < pushRounds chunk := by
      unfold pushRounds
      omega
    rw [List.flatten_cons, ← List.append_assoc, List.append_assoc _ _ later] at hbytes
    have hfirst := @pushLoop_outcome hid alive id _ _ _ _ _ _ hround hs hbytes
    rw [feedSlave, hpush]
    generalize pushLoop hid alive id (pushRounds chunk) s chunk = result at *
    obtain ⟨s', es⟩ := result
    simp only at hfirst ⊢
    obtain ⟨passed, ms', rest', rfl, hall, hes, hbytes', hholds⟩ | ⟨hdown, hlong, hbig⟩ := hfirst
    · rw [← List.append_assoc] at hbytes'
      exact (ih hholds hbytes').append hall hes
    · rw [feedSlave_down hdown, List.append_nil]
      exact .inr ⟨hdown, hlong, hbig⟩

/-- At the end of the stream nothing is left. -/
theorem Holding.nil_of_eq (hs : Holding s ms rest) (hbytes : rest = stream ms) : ms = [] := by
  cases ms with
  | nil => rfl
  | cons m ms =>
    have hlen := congrArg List.length hbytes
    rw [stream_cons, Sent.packet, List.length_append, List.length_append,
      length_toBigendian] at hlen
    obtain hsize | ⟨m', ms', body, hms, -, rfl, hbody⟩ := hs
    · have := hsize.2.1
      omega
    · obtain ⟨rfl, rfl⟩ := List.cons.inj hms
      rw [List.length_append, length_toBigendian] at hlen
      have := hbody.2.2.1
      omega

theorem agreed_cons {m : Sent} {es : List Effect} (h : Agreed hid ms es) :
    Agreed hid (m :: ms) (forwardLocalMessage hid alive m.content ++ es) := by
  obtain ⟨hdeliver, hclose, hlong⟩ := h
  obtain ⟨es', hes', hother⟩ := m.forwardLocalMessage_eq hid alive
  have hnone : es'.filter Effect.isDeliver = [] := by
    apply List.filter_eq_nil_iff.mpr
    intro e he
    obtain ⟨_, _, rfl⟩ | ⟨_, _, rfl⟩ := hother e he
    · exact Bool.false_ne_true
    · exact Bool.false_ne_true
  rw [hes']
  refine ⟨?_, ?_, ?_⟩
  · rw [List.filter_append, List.filter_cons_of_pos rfl, hnone, hdeliver]
    rfl
  · intro fd hmem
    obtain hmem | hmem := List.mem_append.mp hmem
    · obtain hmem | hmem := List.mem_cons.mp hmem
      · cases hmem
      · obtain ⟨_, _, heq⟩ | ⟨_, _, heq⟩ := hother _ hmem
        · cases heq
        · cases heq
    · exact hclose fd hmem
  · intro id hmem
    obtain hmem | hmem := List.mem_append.mp hmem
    · obtain hmem | hmem := List.mem_cons.mp hmem
      · cases hmem
      · obtain ⟨_, _, heq⟩ | ⟨_, _, heq⟩ := hother _ hmem
        · cases heq
        · cases heq
    · exact hlong id hmem

/-- What the service sends itself does not matter. -/
theorem agreed_append {es es' : List Effect}
    (hes : ∀ e ∈ es, ∃ fd status m, e = .sendRemote fd status m) :
    Agreed hid ms (es ++ es') ↔ Agreed hid ms es' := by
  have hnone : es.filter Effect.isDeliver = [] := by
    apply List.filter_eq_nil_iff.mpr
    intro e he
    obtain ⟨_, _, _, rfl⟩ := hes e he
    exact Bool.false_ne_true
  have hclose : ∀ fd, Effect.socketClose fd ∉ es := by
    intro fd he
    obtain ⟨_, _, _, heq⟩ := hes _ he
    cases heq
  have hlong : ∀ id, Effect.error (.tooLong id) ∉ es := by
    intro id he
    obtain ⟨_, _, _, heq⟩ := hes _ he
    cases heq
  unfold Agreed
  rw [List.filter_append, hnone, List.nil_append]
  simp only [List.mem_append, hclose, hlong, false_or]

/-- The whole stream, from the first length on. -/
theorem feedSlave_agreed (hs : HoldsSize s []) (hbytes : chunks.flatten = stream ms) :
    Agreed hid ms (feedSlave hid alive id s chunks).2 ↔ ∀ m ∈ ms, m.Small := by
  have hbytes' : [] ++ chunks.flatten ++ [] = stream ms := by
    rw [List.nil_append, List.append_nil, hbytes]
  obtain ⟨passed, ms', rest, rfl, hall, hes, hrest, hholds⟩ | ⟨-, hlong, m, hm, hbig⟩ :=
    @feedSlave_outcome hid alive id _ _ _ _ _ (.inl hs) hbytes'
  · rw [List.append_nil] at hrest
    obtain rfl := hholds.nil_of_eq hrest
    rw [List.append_nil]
    refine iff_of_true ?_ hall
    rw [hes]
    clear hes hall hbytes hbytes'
    induction passed with
    | nil => exact ⟨rfl, by simp, by simp⟩
    | cons m passed ih => exact agreed_cons ih
  · exact iff_of_false (fun hagreed => hagreed.2.2 id hlong) fun hall => hbig (hall m hm)

end Feed

/-! ## The service -/

theorem harborId_lt (h : Harbor) (fd : ℕ) : harborId h fd < remoteMax := by
  unfold harborId
  cases hfind : (List.range' 1 (remoteMax - 1)).find? fun i => (h.s i).fd = fd with
  | none => decide
  | some i =>
    have hmem := List.mem_of_find?_eq_some hfind
    rw [List.mem_range'_1] at hmem
    exact hmem.2

/-- A slave that keeps its socket is found again. -/
theorem harborId_setSlave (h : Harbor) {id : ℕ} {s : Slave} (hfd : s.fd = (h.s id).fd) (fd : ℕ) :
    harborId (h.setSlave id s) fd = harborId h fd := by
  have hsame : ∀ i, ((h.setSlave id s).s i).fd = (h.s i).fd := by
    intro i
    show (update h.s id s i).fd = (h.s i).fd
    by_cases hi : i = id
    · subst hi
      rw [update_self, hfd]
    · rw [update_of_ne hi]
  unfold harborId
  simp only [hsame]

theorem feed_eq (h : Harbor) (alive : ℕ → Bool) {fd id : ℕ} (hid : harborId h fd = id)
    (hpos : id ≠ 0) (chunks : List (List UInt8)) :
    (feed alive fd h chunks).2 = (feedSlave h.id alive id (h.s id) chunks).2 := by
  induction chunks generalizing h with
  | nil => rfl
  | cons chunk chunks ih =>
    have hpush : pushSocketData h alive fd chunk =
        (h.setSlave id (pushSlave h.id alive id (h.s id) chunk).1,
          (pushSlave h.id alive id (h.s id) chunk).2) := by
      rw [pushSocketData]
      simp only [hid, if_neg hpos]
    rw [feed, feedSlave, hpush]
    have hself : (h.setSlave id (pushSlave h.id alive id (h.s id) chunk).1).s id =
        (pushSlave h.id alive id (h.s id) chunk).1 := update_self ..
    have := ih (h.setSlave id (pushSlave h.id alive id (h.s id) chunk).1)
      ((harborId_setSlave h pushSlave_fd fd).trans hid)
    rw [hself] at this
    exact congrArg _ this

/-- The bytes of a new connection: the messages, behind the byte of the handshake if the slave
still waits for it. -/
def NewConnection (s : Slave) (id : ℕ) (ms : List Sent) (bytes : List UInt8) : Prop :=
  s.read = 0 ∧
    (s.status = .handshake ∧ bytes = UInt8.ofNat id :: stream ms ∨
      s.status = .header ∧ bytes = stream ms)

/-- **The wire format.** What `send_remote` has written is passed on by the peer, for any way in
which it is cut into chunks, exactly when every length has three bytes. -/
theorem wire_agreed (h : Harbor) (alive : ℕ → Bool) {fd : ℕ} {ms : List Sent}
    {chunks : List (List UInt8)} (hid : harborId h fd ≠ 0) (hne : ∀ chunk ∈ chunks, chunk ≠ [])
    (hbytes : NewConnection (h.s (harborId h fd)) (harborId h fd) ms chunks.flatten) :
    Agreed h.id ms (feed alive fd h chunks).2 ↔
      ∀ m ∈ ms, m.buffer.length + headerCookieLength < 2 ^ 24 := by
  rw [feed_eq h alive rfl hid]
  have hlt := harborId_lt h fd
  generalize harborId h fd = id at *
  obtain ⟨hread, ⟨hstatus, hflat⟩ | ⟨hstatus, hflat⟩⟩ := hbytes
  · cases chunks with
    | nil => cases hflat
    | cons chunk chunks =>
      obtain ⟨b, chunk, rfl⟩ := List.exists_cons_of_ne_nil (hne chunk (by simp))
      have htail : b = UInt8.ofNat id ∧ (chunk :: chunks).flatten = stream ms := List.cons.inj hflat
      obtain ⟨rfl, htail⟩ := htail
      have hbyte : (UInt8.ofNat id).toNat = id := by
        rw [UInt8.toNat_ofNat']
        exact Nat.mod_eq_of_lt hlt
      generalize hs : dispatchQueue { h.s id with status := .header } = result
      rw [dispatchQueue_eq] at hs
      have hpush : pushSlave h.id alive id (h.s id) (UInt8.ofNat id :: chunk) =
          ((pushSlave h.id alive id result.1 chunk).1,
            result.2 ++ (pushSlave h.id alive id result.1 chunk).2) := by
        subst hs
        rw [pushSlave, hstatus]
        show pushHandshake h.id alive id (h.s id) (UInt8.ofNat id :: chunk) = _
        rw [pushHandshake]
        simp only [List.getD_cons_zero, hbyte, ne_eq, not_true_eq_false, if_false, dispatchQueue_eq]
        rfl
      have hholds : HoldsSize result.1 [] := by
        subst hs
        exact ⟨rfl, by decide, hread, by rw [show Slave.read _ = 0 from hread]; rfl⟩
      have hagreed := @feedSlave_agreed h.id alive id _ ms (chunk :: chunks) hholds htail
      rw [feedSlave, hpush]
      show Agreed h.id ms (result.2 ++ _ ++ _) ↔ _
      rw [List.append_assoc]
      refine (agreed_append ?_).trans hagreed
      subst hs
      intro e he
      obtain ⟨m, -, rfl⟩ := List.mem_map.mp he
      exact ⟨_, _, m, rfl⟩
  · exact feedSlave_agreed ⟨hstatus, by decide, hread, by rw [hread]; rfl⟩ hflat

/-- Harbor 1, which waits for the handshake of harbor 2 on socket 5. -/
def sampleHarbor (status : Status) : Harbor :=
  (harborInit 1 0x1000002).setSlave 2 ⟨5, none, status, 0, 0, [], []⟩

/-- A call with two bytes. -/
def sampleSent : Sent where
  header := ⟨0x2000003, 0xa000004, 9⟩
  buffer := [7, 8]
  source_lt := by decide
  destination_lt := by decide
  session_lt := by decide
  size_le := by decide

theorem wire_agreed_two :
    Agreed 1 [sampleSent, sampleSent] (feed (fun _ => true) 5 (sampleHarbor .handshake)
      [[2, 0], [0, 0], 14 :: sampleSent.content ++ [0, 0, 0], 14 :: sampleSent.content]).2 := by
  have hid : harborId (sampleHarbor .handshake) 5 = 2 := by rfl
  refine (wire_agreed (sampleHarbor .handshake) (fun _ => true) ?_ ?_ ?_).mpr ?_
  · rw [hid]
    decide
  · decide
  · rw [hid]
    exact ⟨rfl, .inl ⟨rfl, by rfl⟩⟩
  · decide

/-- A message with a length of 2^24. -/
def longSent : Sent where
  header := ⟨0x2000003, 0xa000004, 9⟩
  buffer := List.replicate (2 ^ 24 - headerCookieLength) 0
  source_lt := by decide
  destination_lt := by decide
  session_lt := by decide
  size_le := by
    rw [List.length_replicate]
    decide

/-- `send_remote` emits the message, and the peer does not pass it on. -/
theorem long_message_refused :
    sendRemote longSent.buffer longSent.header = some longSent.packet ∧
    ¬Agreed 1 [longSent] (feed (fun _ => true) 5 (sampleHarbor .header) [longSent.packet]).2 := by
  refine ⟨longSent.sendRemote_eq, ?_⟩
  have hid : harborId (sampleHarbor .header) 5 = 2 := by rfl
  have hflat : [longSent.packet].flatten = stream [longSent] := by
    rw [stream, List.flatMap_singleton, List.flatten_singleton]
  have hsize : HoldsSize ((sampleHarbor .header).s 2) [] := ⟨rfl, by decide, rfl, rfl⟩
  rw [feed_eq _ _ hid (by decide)]
  intro hagreed
  have hsmall := (feedSlave_agreed hsize hflat).mp hagreed longSent (by simp)
  have hlen : longSent.buffer.length = 2 ^ 24 - headerCookieLength := List.length_replicate
  rw [Sent.Small, hlen] at hsmall
  exact absurd hsmall (by decide)

end SkynetEureka.HarborService
