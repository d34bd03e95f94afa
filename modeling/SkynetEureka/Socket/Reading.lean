import SkynetEureka.Socket.Buffer

/-!
# Reading a socket (socket.lua)

The object of a connected socket, which one coroutine reads. A call that has to wait leaves in
`readRequired` what it waits for, and goes on when a message has woken its coroutine.

`received` and `returned` are not data of the program.
-/

namespace SkynetEureka.Socket

/-- What can be in `read_required` -/
inductive Required where
  | number (n : ℤ)
  | string (sep : Bytes)
  | all

/-- A call of the reader; `readAny` is `socket.read` without a size. -/
inductive Call where
  | read (sz : ℕ)
  | readAny
  | readall
  | readline (sep : Bytes)
  | block
  deriving DecidableEq

/-- What a call returns: a string, or `false` or `nil` with the second result if there is one, or the
status of `socket.block`. -/
inductive Result where
  | ok (ret : Bytes)
  | fail (ret : Option Bytes)
  | status (connected : Bool)
  deriving DecidableEq

/-- A call that has returned, whether the socket was connected then, and what was in the buffer -/
structure Return where
  call : Call
  result : Result
  connected : Bool
  left : Bytes

/-- The coroutine of the reader: `s.co` is set while it is suspended. `since` is how many bytes had
been received when the call was made. -/
inductive Reader where
  | idle
  | suspended (call : Call) (since : ℕ)
  | woken (call : Call)

structure State where
  buffer : Buffer
  connected : Bool
  readRequired : Option Required
  bufferLimit : Option ℤ
  reader : Reader
  received : Bytes
  returned : List Return

/-- The object after `connect` -/
def State.init : State where
  buffer := .init
  connected := true
  readRequired := none
  bufferLimit := none
  reader := .idle
  received := []
  returned := []

namespace State

variable (s : State)

/-! ## The messages -/

def wakeup : State :=
  match s.reader with
  | .suspended call _ => { s with reader := .woken call }
  | _ => s

/-- `socket_message[1]`: data; `none` is a fault of the driver. -/
def data (msg : Bytes) : Option State :=
  let s := { s with buffer := s.buffer.push msg, received := s.received ++ msg }
  match s.readRequired with
  | some (.number rr) =>
    -- read size
    some (if rr ≤ s.buffer.size then { s with readRequired := none }.wakeup else s)
  | rr =>
    if s.bufferLimit.any fun limit => limit < s.buffer.size then
      -- socket buffer overflow
      some { s with buffer := s.buffer.clear }
    else
      match rr with
      | some (.string sep) => do
        -- read line
        let found ← s.buffer.search sep
        some (if found.isSome then { s with readRequired := none }.wakeup else s)
      | _ => some s

/-- `socket_message[3]` and `socket_message[5]`: the socket is closed, or an error has closed it. -/
def close : State := { s with connected := false }.wakeup

/-! ## The calls -/

/-- The call returns. -/
def finish (call : Call) (result : Result) : State :=
  { s with
    reader := .idle
    returned := s.returned ++ [⟨call, result, s.connected, s.buffer.bytes⟩] }

/-- The reader is suspended. -/
def suspend (call : Call) (required : Required) : Option State :=
  -- assert(not s.read_required)
  if s.readRequired.isNone then
    some { s with
      readRequired := some required
      reader := .suspended call s.received.length }
  else none

/-- `return ret`, with what has been read -/
def succeed (call : Call) (ret : Bytes) (buffer : Buffer) : State :=
  { s with buffer := buffer }.finish call (.ok ret)

/-- `return false, driver.readall(s.buffer, buffer_pool)` -/
def fail (call : Call) : State :=
  { s with buffer := s.buffer.readall.2 }.finish call (.fail (some s.buffer.readall.1))

/-- A call up to its first `suspend`; `none` is a fault of the driver or a failed assertion. -/
def call : Call → Option State
  | .readAny =>
    if s.buffer.readall.1 ≠ [] then
      some (s.succeed .readAny s.buffer.readall.1 s.buffer.readall.2)
    else if s.connected = false then some (s.fail .readAny)
    else { s with buffer := s.buffer.readall.2 }.suspend .readAny (.number 0)
  | .read sz => do
    let (ret, buffer) ← s.buffer.pop sz
    match ret with
    | some ret => some (s.succeed (.read sz) ret buffer)
    | none =>
      if s.connected = false then some (s.fail (.read sz))
      else s.suspend (.read sz) (.number sz)
  | .readall =>
    if s.connected = false then
      -- return r ~= "" and r
      some ({ s with buffer := s.buffer.readall.2 }.finish .readall
        (if s.buffer.readall.1 ≠ [] then .ok s.buffer.readall.1 else .fail none))
    else s.suspend .readall .all
  | .readline sep => do
    let (ret, buffer) ← s.buffer.readline sep
    match ret with
    | some ret => some (s.succeed (.readline sep) ret buffer)
    | none =>
      if s.connected = false then some (s.fail (.readline sep))
      else s.suspend (.readline sep) (.string sep)
  | .block =>
    if s.connected = false then some (s.finish .block (.status false))
    else s.suspend .block (.number 0)

/-- The rest of a call, after its `suspend` -/
def resume : Call → Option State
  | .readAny =>
    some (if s.buffer.readall.1 ≠ [] then
      s.succeed .readAny s.buffer.readall.1 s.buffer.readall.2
    else s.fail .readAny)
  | .read sz => do
    let (ret, buffer) ← s.buffer.pop sz
    match ret with
    | some ret => some (s.succeed (.read sz) ret buffer)
    | none => some (s.fail (.read sz))
  | .readall =>
    -- assert(s.connected == false)
    if s.connected = false then
      some (s.succeed .readall s.buffer.readall.1 s.buffer.readall.2)
    else none
  | .readline sep =>
    if s.connected then do
      let (ret, buffer) ← s.buffer.readline sep
      match ret with
      | some ret => some (s.succeed (.readline sep) ret buffer)
      | none => some (s.finish (.readline sep) (.fail none))
    else some (s.fail (.readline sep))
  | .block => some (s.finish .block (.status s.connected))

end State

/-- A message of the socket, a call of the reader, or its resumption. The driver forwards no empty
data. -/
inductive Action where
  | data (msg : Bytes)
  | close
  | call (call : Call)
  | resume

/-- Where a run is: `none` after a fault -/
def step (s : Option State) (a : Action) : Option (Option State) := do
  let s ← s
  match a with
  | .data msg => if msg ≠ [] then some (s.data msg) else none
  | .close => some (some s.close)
  | .call call =>
    match s.reader with
    | .idle => some (s.call call)
    | _ => none
  | .resume =>
    match s.reader with
    | .woken call => some (s.resume call)
    | _ => none

end SkynetEureka.Socket
