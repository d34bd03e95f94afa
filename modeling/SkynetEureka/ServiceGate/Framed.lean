import SkynetEureka.ServiceGate.DatabufferTheorems
import SkynetEureka.ServiceGate.Gate

/-!
# The gate as bytes

`Framed` is a connection with the bytes that wait in its buffer in place of the messages that hold
them, and `Framed.next` says what `dispatch_message` does next with them. The loop of the gate makes
these steps until there is none.
-/

namespace SkynetEureka.ServiceGate

open Lib Function Relation

/-- A connection, with the bytes that wait in its buffer -/
structure Framed where
  agent : ℕ
  client : ℕ
  header : ℤ
  bytes : List UInt8
  received : List UInt8
  sent : List Sent
  closes : ℕ

namespace Framed

variable (headerSize : ℕ) (receiver : Option (ℕ × ℕ × List UInt8)) (f : Framed)

/-- The body is forwarded, if there is a receiver, and the header is forgotten. -/
def forward : Framed :=
  match receiver with
  | none => { f with header := 0 }
  | some (dest, source, text) =>
    { f with
      header := 0
      bytes := f.bytes.drop f.header.toNat
      sent := f.sent ++ [⟨dest, source, text, f.bytes.take f.header.toNat⟩] }

/-- What `dispatch_message` does next, `none` when it waits for more bytes -/
def next : Option Framed :=
  if f.header = 0 then
    if f.bytes.length < headerSize then none
    else
      some { f with
        header := Databuffer.readLength headerSize (f.bytes.take headerSize)
        bytes := f.bytes.drop headerSize }
  else if f.header < 0 ∨ f.bytes.length < f.header then none
  else if 0x1000000 ≤ f.header then
    some { f with header := 0, bytes := [], closes := f.closes + 1 }
  else some (f.forward receiver)

/-- A step of `dispatch_message` -/
def Next (f f' : Framed) : Prop := f.next headerSize receiver = some f'

/-- What `dispatch_message` leaves -/
def Drains (f f' : Framed) : Prop := f' ∈ StateTransition.eval (next headerSize receiver) f

/-- A block has come. -/
def receive (data : List UInt8) : Framed :=
  { f with bytes := f.bytes ++ data, received := f.received ++ data }

section

variable {headerSize receiver} {f f' f'' : Framed}

theorem Drains.steps (h : f.Drains headerSize receiver f') :
    ReflTransGen (Next headerSize receiver) f f' := (StateTransition.mem_eval.mp h).1

theorem Drains.waits (h : f.Drains headerSize receiver f') :
    f'.next headerSize receiver = none := (StateTransition.mem_eval.mp h).2

/-- The first step can be made before. -/
theorem Next.drains_iff (h : f.Next headerSize receiver f') :
    f.Drains headerSize receiver f'' ↔ f'.Drains headerSize receiver f'' := by
  unfold Drains
  rw [StateTransition.reaches_eval (.single h)]

end

end Framed

/-- A connection whose buffer holds these bytes -/
def Connection.framed (c : Connection) (bytes : List UInt8) : Framed :=
  ⟨c.agent, c.client, c.buffer.header, bytes, c.received, c.sent, c.closes⟩

/-- The rest of a round in `dispatch_message`, after the header -/
def Gate.afterHeader (g : Gate) (id rounds : ℕ) (c : Connection) (mem : Memory) (size : ℤ) :
    Option (Connection × Memory) :=
  if size < 0 then some (c, mem)
  else if size > 0 then
    if size ≥ 0x1000000 then do
      let (buffer, mem) ← c.buffer.clear mem
      some ({ c with buffer := buffer, closes := c.closes + 1 }, mem)
    else do
      let (c, mem) ← g.forward id c mem size.toNat
      g.dispatchLoop id rounds { c with buffer := c.buffer.reset } mem
  else g.dispatchLoop id rounds c mem

/-- The connection keeps its receiver and what it has been sent. -/
structure Connection.Same (c c' : Connection) : Prop where
  agent : c'.agent = c.agent
  client : c'.client = c.client
  received : c'.received = c.received
  served : c'.served = c.served

/-- The outcome of dispatching what is in the buffer. -/
structure Drained (g : Gate) (nodes : ℕ → List ℕ) (id : ℕ) (mem : Memory) (c : Connection)
    (bytes : List UInt8) (mem' : Memory) (c' : Connection) (bytes' : List UInt8) : Prop where
  holds : Holds mem' nodes id c'.buffer bytes'
  drains : (c.framed bytes).Drains g.headerSize (g.receiver id c) (c'.framed bytes')
  frame : Frame mem mem' nodes id
  same : c.Same c'

section

variable {g : Gate} {mem mem' : Memory} {nodes : ℕ → List ℕ} {id rounds headerSize : ℕ}
  {c c' : Connection} {db : Databuffer} {bytes bytes' : List UInt8}

theorem dispatchLoop_succ : g.dispatchLoop id (rounds + 1) c mem =
    (c.buffer.readheader mem g.headerSize).bind fun r =>
      g.afterHeader id rounds { c with buffer := r.1 } r.2.1 r.2.2 := rfl

theorem Connection.Same.refl : c.Same c := ⟨rfl, rfl, rfl, rfl⟩

theorem Connection.Same.trans {c'' : Connection} (h : c.Same c') (h' : c'.Same c'') :
    c.Same c'' :=
  ⟨h'.agent.trans h.agent, h'.client.trans h.client, h'.received.trans h.received,
    h'.served.trans h.served⟩

theorem Connection.Same.receiver (h : c.Same c') : g.receiver id c' = g.receiver id c := by
  unfold Gate.receiver
  rw [h.agent, h.client]

/-- The header is no part of what the buffer holds. -/
theorem Holds.header (h : Holds mem nodes id db bytes) (header : ℤ) :
    Holds mem nodes id { db with header := header } bytes := by
  obtain ⟨free, l, hw, hs, hsize⟩ := h
  exact ⟨free, l, hw, ⟨hs.linked, hs.tail, hs.offset, hs.start, hs.bytes⟩, hsize⟩

theorem Holds.size_eq (h : Holds mem nodes id db bytes) : db.size = bytes.length := by
  obtain ⟨_, _, _, _, hsize⟩ := h
  exact hsize

/-- A step has been made, and the rest of the loop follows it. -/
theorem Drained.head {mem₁ : Memory} {c₁ : Connection} {bytes₁ : List UInt8}
    (h : Drained g nodes id mem₁ c₁ bytes₁ mem' c' bytes')
    (hnext : (c.framed bytes).Next g.headerSize (g.receiver id c) (c₁.framed bytes₁))
    (hframe : Frame mem mem₁ nodes id) (hsame : c.Same c₁) :
    Drained g nodes id mem c bytes mem' c' bytes' := by
  refine ⟨h.holds, ?_, hframe.comp h.frame, hsame.trans h.same⟩
  have hdrains := h.drains
  rw [hsame.receiver] at hdrains
  exact hnext.drains_iff.mpr hdrains

/-- The loop is done with a connection that waits. -/
theorem Drained.done (hholds : Holds mem nodes id c.buffer bytes)
    (hwaits : (c.framed bytes).next g.headerSize (g.receiver id c) = none) :
    Drained g nodes id mem c bytes mem c bytes :=
  ⟨hholds, StateTransition.mem_eval.mpr ⟨.refl, hwaits⟩, .refl, .refl⟩

/-- `_forward` does as its bytes say. -/
theorem forward_spec (hholds : Holds mem nodes id c.buffer bytes) (hpos : 0 < c.buffer.header)
    (hle : c.buffer.header ≤ bytes.length) :
    ∃ c₁ mem₁ bytes₁, g.forward id c mem c.buffer.header.toNat = some (c₁, mem₁) ∧
      Holds mem₁ nodes id c₁.buffer bytes₁ ∧ bytes₁.length ≤ bytes.length ∧
        Frame mem mem₁ nodes id ∧ c.Same { c₁ with buffer := c₁.buffer.reset } ∧
          Connection.framed { c₁ with buffer := c₁.buffer.reset } bytes₁ =
            (c.framed bytes).forward (g.receiver id c) := by
  unfold Gate.forward
  cases hreceiver : g.receiver id c with
  | none => exact ⟨c, mem, bytes, rfl, hholds, le_rfl, .refl, ⟨rfl, rfl, rfl, rfl⟩, rfl⟩
  | some r =>
    obtain ⟨dest, source, text⟩ := r
    obtain ⟨db', mem', hread, -, hholds', hframe⟩ :=
      @read_spec _ _ _ _ _ c.buffer.header.toNat hholds (by omega) (by omega)
    dsimp only
    rw [hread, Option.bind_eq_bind, Option.bind_some]
    refine ⟨_, mem', _, rfl, hholds', ?_, hframe, ⟨rfl, rfl, rfl, rfl⟩, rfl⟩
    rw [List.length_drop]
    omega

theorem afterHeader_spec
    (ih : ∀ {mem c bytes}, Holds mem nodes id c.buffer bytes →
      2 * bytes.length + (if c.buffer.header = 0 then 0 else 1) < rounds →
        ∃ mem' c' bytes', g.dispatchLoop id rounds c mem = some (c', mem') ∧
          Drained g nodes id mem c bytes mem' c' bytes')
    (hpos : 0 < g.headerSize) (hholds : Holds mem nodes id c.buffer bytes)
    (hrounds : 2 * bytes.length + (if c.buffer.header = 0 then 1 else 0) < rounds) :
    ∃ mem' c' bytes', g.afterHeader id rounds c mem c.buffer.available = some (c', mem') ∧
      Drained g nodes id mem c bytes mem' c' bytes' := by
  have hlength := hholds.size_eq
  unfold Gate.afterHeader Databuffer.available
  by_cases hzero : c.buffer.header = 0
  · -- an empty package
    rw [if_neg (by omega), if_neg (by omega)]
    rw [if_pos hzero] at hrounds
    exact ih hholds (by rw [if_pos hzero]; omega)
  rw [if_neg hzero] at hrounds
  by_cases hwait : c.buffer.header < 0 ∨ (bytes.length : ℤ) < c.buffer.header
  · -- the body has not come, or never will
    refine ⟨mem, c, bytes, ?_, .done hholds ?_⟩
    · rw [if_pos (by omega)]
    · unfold Framed.next
      exact (if_neg hzero).trans (if_pos hwait)
  · rw [if_neg (show ¬(c.buffer.size : ℤ) < c.buffer.header by omega), if_neg (by omega),
      if_pos (by omega)]
    by_cases hbig : c.buffer.header ≥ 0x1000000
    · -- it is too long for a package
      obtain ⟨mem', hclear, hholds', hframe⟩ := clear_spec hholds
      rw [if_pos hbig, hclear, Option.bind_eq_bind, Option.bind_some]
      have hdone : Drained g nodes id mem' { c with buffer := .init, closes := c.closes + 1 } []
          mem' { c with buffer := .init, closes := c.closes + 1 } [] := by
        refine .done hholds' ?_
        unfold Framed.next
        exact (if_pos rfl).trans (if_pos hpos)
      refine ⟨mem', _, [], rfl, hdone.head ?_ hframe ⟨rfl, rfl, rfl, rfl⟩⟩
      show Framed.next _ _ _ = _
      unfold Framed.next
      exact (if_neg hzero).trans ((if_neg hwait).trans (if_pos hbig))
    · rw [if_neg hbig]
      obtain ⟨c₁, mem₁, bytes₁, hforward, hholds₁, hle, hframe, hsame, hframed⟩ :=
        forward_spec hholds (by omega) (by omega)
      rw [hforward, Option.bind_eq_bind, Option.bind_some]
      obtain ⟨mem', c', bytes', hloop, hdrained⟩ := @ih mem₁
        { c₁ with buffer := c₁.buffer.reset } bytes₁ (hholds₁.header 0)
        (by rw [if_pos (show c₁.buffer.reset.header = 0 from rfl)]; omega)
      refine ⟨mem', c', bytes', hloop, hdrained.head ?_ hframe hsame⟩
      show Framed.next _ _ _ = _
      rw [hframed]
      unfold Framed.next
      exact (if_neg hzero).trans ((if_neg hwait).trans (if_neg hbig))

/-- The loop makes the steps of the bytes until there is none. -/
theorem dispatchLoop_spec (hpos : 0 < g.headerSize) (hholds : Holds mem nodes id c.buffer bytes)
    (hrounds : 2 * bytes.length + (if c.buffer.header = 0 then 0 else 1) < rounds) :
    ∃ mem' c' bytes', g.dispatchLoop id rounds c mem = some (c', mem') ∧
      Drained g nodes id mem c bytes mem' c' bytes' := by
  induction rounds generalizing mem c bytes with
  | zero => omega
  | succ rounds ih =>
    have hlength := hholds.size_eq
    rw [dispatchLoop_succ]
    unfold Databuffer.readheader
    by_cases hzero : c.buffer.header = 0
    · rw [if_pos hzero]
      rw [if_pos hzero] at hrounds
      by_cases hlt : c.buffer.size < g.headerSize
      · -- the header has not come
        rw [if_pos hlt]
        refine ⟨mem, c, bytes, rfl, .done hholds ?_⟩
        unfold Framed.next
        exact (if_pos hzero).trans (if_pos (show bytes.length < _ by omega))
      · obtain ⟨db', mem', hread, -, hholds', hframe⟩ :=
          @read_spec _ _ _ _ _ g.headerSize hholds (by omega) (by omega)
        rw [if_neg hlt, hread, Option.bind_eq_bind, Option.bind_some, Option.bind_some]
        have hdrop : (bytes.drop g.headerSize).length = bytes.length - g.headerSize :=
          List.length_drop
        obtain ⟨mem'', c'', bytes'', hloop, hdrained⟩ := @afterHeader_spec g mem' nodes id rounds
          { c with
            buffer := { db' with
              header := Databuffer.readLength g.headerSize (bytes.take g.headerSize) } }
          (bytes.drop g.headerSize) ih hpos (hholds'.header _) (by split <;> omega)
        refine ⟨mem'', c'', bytes'', hloop, hdrained.head ?_ hframe ⟨rfl, rfl, rfl, rfl⟩⟩
        show Framed.next _ _ _ = _
        unfold Framed.next
        exact (if_pos hzero).trans (if_neg (show ¬bytes.length < _ by omega))
    · rw [if_neg hzero]
      rw [if_neg hzero] at hrounds
      exact afterHeader_spec ih hpos hholds (by rw [if_neg hzero]; omega)

/-- A block has been put into the buffer, and what it completes has been dispatched. -/
theorem dispatchMessage_framed {data : List UInt8} (hpos : 0 < g.headerSize)
    (hholds : Holds g.mp nodes id c.buffer bytes) (hne : data ≠ []) :
    ∃ mem' c' bytes', g.dispatchMessage id c data = some (c', mem') ∧
      Holds mem' nodes id c'.buffer bytes' ∧
        ((c.framed bytes).receive data).Drains g.headerSize (g.receiver id c) (c'.framed bytes') ∧
          Frame g.mp mem' nodes id ∧ c'.received = c.received ++ data ∧
            c'.served = (c.served && (g.receiver id c).isSome) := by
  obtain ⟨db', mem₁, hpush, hheader, hholds₁, hframe⟩ := push_spec hholds hne
  have hlength := hholds₁.size_eq
  obtain ⟨mem', c', bytes', hloop, hdrained⟩ :=
    @dispatchLoop_spec g mem₁ nodes id (2 * db'.size + 2)
      { c with
        buffer := db'
        received := c.received ++ data
        served := c.served && (g.receiver id c).isSome }
      (bytes ++ data) hpos hholds₁ (by split <;> omega)
  refine ⟨mem', c', bytes', ?_, hdrained.holds, ?_, hframe.comp hdrained.frame,
    hdrained.same.received, hdrained.same.served⟩
  · unfold Gate.dispatchMessage
    rw [hpush, Option.bind_eq_bind, Option.bind_some]
    exact hloop
  · have hdrains := hdrained.drains
    unfold Connection.framed at hdrains ⊢
    unfold Framed.receive
    rw [← hheader]
    exact hdrains

end

end SkynetEureka.ServiceGate
