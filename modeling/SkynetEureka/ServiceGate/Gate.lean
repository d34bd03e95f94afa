import SkynetEureka.Lib.Run
import SkynetEureka.ServiceGate.Databuffer

/-!
# The gate (service_gate.c)

The gate takes the packages of its connections out of what the sockets send, and forwards each of
them to the broker, to the agent of the connection, or to the watchdog. The table of connections
(hashid.h) is a function of the numbers of sockets here.
-/

namespace SkynetEureka.ServiceGate

open Function

/-- A package that has been forwarded: to whom, from whom, the text in front of it for a watchdog,
and its bytes. -/
structure Sent where
  dest : ℕ
  source : ℕ
  text : List UInt8
  body : List UInt8

/-- `struct connection`. `received` is what its socket has sent, `sent` what has been forwarded,
`served` tells whether there was a receiver whenever a block came, and `closes` counts the calls of
`skynet_socket_close` by `dispatch_message`. -/
structure Connection where
  agent : ℕ
  client : ℕ
  buffer : Databuffer
  received : List UInt8
  sent : List Sent
  served : Bool
  closes : ℕ

/-- `struct gate` -/
structure Gate where
  watchdog : ℕ
  broker : ℕ
  headerSize : ℕ
  connection : ℕ → Option Connection
  mp : Memory

/-- What happens. -/
inductive Action where
  /-- a socket has been accepted -/
  | accept (id : ℕ)
  /-- a socket has sent a block -/
  | data (id : ℕ) (bytes : List UInt8)
  /-- a socket is closed, by itself or by an error -/
  | close (id : ℕ)
  /-- the command "forward" -/
  | forward (id agent client : ℕ)
  /-- the command "broker", with the address of the name -/
  | broker (address : ℕ)

/-- `"%d data "` -/
def dataText (id : ℕ) : List UInt8 :=
  (Nat.toDigits 10 id ++ [' ', 'd', 'a', 't', 'a', ' ']).map fun c => UInt8.ofNat c.toNat

namespace Gate

variable (g : Gate)

/-- To whom `_forward` sends, from whom, and with what text. -/
def receiver (id : ℕ) (c : Connection) : Option (ℕ × ℕ × List UInt8) :=
  if g.broker ≠ 0 then some (g.broker, 0, [])
  else if c.agent ≠ 0 then some (c.agent, c.client, [])
  else if g.watchdog ≠ 0 then some (g.watchdog, 0, dataText id)
  else none

/-- `_forward`, when the socket has a number as sockets have -/
def forward (id : ℕ) (c : Connection) (mem : Memory) (size : ℕ) : Option (Connection × Memory) :=
  match g.receiver id c with
  | none => some (c, mem)
  | some (dest, source, text) => do
    let (buffer, mem, body) ← c.buffer.read mem size
    some ({ c with buffer := buffer, sent := c.sent ++ [⟨dest, source, text, body⟩] }, mem)

/-- The loop of `dispatch_message`, of at most so many rounds -/
def dispatchLoop (id : ℕ) : ℕ → Connection → Memory → Option (Connection × Memory)
  | 0, _, _ => none
  | rounds + 1, c, mem => do
    let (buffer, mem, size) ← c.buffer.readheader mem g.headerSize
    let c := { c with buffer := buffer }
    if size < 0 then some (c, mem)
    else if size > 0 then
      if size ≥ 0x1000000 then do
        let (buffer, mem) ← c.buffer.clear mem
        some ({ c with buffer := buffer, closes := c.closes + 1 }, mem)
      else do
        let (c, mem) ← g.forward id c mem size.toNat
        dispatchLoop id rounds { c with buffer := c.buffer.reset } mem
    else dispatchLoop id rounds c mem

/-- `dispatch_message`: each round but the last one reads bytes, or forgets a header. -/
def dispatchMessage (id : ℕ) (c : Connection) (data : List UInt8) :
    Option (Connection × Memory) := do
  let (buffer, mem) ← c.buffer.push g.mp id data
  let c :=
    { c with
      buffer := buffer
      received := c.received ++ data
      served := c.served && (g.receiver id c).isSome }
  g.dispatchLoop id (2 * buffer.size + 2) c mem

/-- Write a connection. -/
def set (id : ℕ) (c : Option Connection) (mem : Memory) : Gate :=
  { g with connection := update g.connection id c, mp := mem }

/-- A step. A socket has a positive number that no other one has, and sends no empty block. -/
def step : Action → Option Gate
  | .accept id =>
    match g.connection id with
    | some _ => some g
    | none => some (if id = 0 then g else g.set id (some ⟨0, 0, .init, [], [], true, 0⟩) g.mp)
  | .data id bytes =>
    if bytes = [] then some g
    else
      match g.connection id with
      -- it is dropped
      | none =>
        some { g with
          mp := { g.mp with
            blocks := g.mp.blocks ++ [⟨id, bytes⟩]
            freed := g.mp.freed ++ [g.mp.blocks.length] } }
      | some c => do
        let (c, mem) ← g.dispatchMessage id c bytes
        some (g.set id (some c) mem)
  | .close id =>
    match g.connection id with
    | none => some g
    | some c => do
      let (_, mem) ← c.buffer.clear g.mp
      some (g.set id none mem)
  | .forward id agent client =>
    some { g with
      connection := update g.connection id
        ((g.connection id).map fun c => { c with agent := agent, client := client }) }
  | .broker address => some { g with broker := address }

/-- A gate that has been started. -/
def init (headerSize watchdog : ℕ) : Gate := ⟨watchdog, 0, headerSize, fun _ => none, .init⟩

end Gate

end SkynetEureka.ServiceGate
