import Mathlib

/-!
# The harbor service (`service_harbor.c`)

A function returns the service and the calls it has made to the rest of the system, in order. A
message carries the number with which it has come in, its `stamp`, of which the code knows
nothing; a queue of messages is a list, and the map from names to nodes is a function, where a
name that was never inserted has an empty node. The text of a command is parsed already. Memory
that is freed is not tracked.
-/

namespace SkynetEureka.HarborService

/-- `HEADER_COOKIE_LENGTH` -/
def headerCookieLength : ℕ := 12

/-- `GLOBALNAME_LENGTH` -/
def globalnameLength : ℕ := 16

/-- `REMOTE_MAX` -/
def remoteMax : ℕ := 256

/-- `HANDLE_REMOTE_SHIFT` -/
def handleRemoteShift : ℕ := 24

/-- `HANDLE_MASK` -/
def handleMask : ℕ := 0xffffff

/-- `UINT32_MAX` -/
def uint32Max : ℕ := 0xffffffff

/-- `PTYPE_ERROR` -/
def ptypeError : ℕ := 7

abbrev Name := List UInt8

/-- `struct remote_message_header` -/
structure Header where
  source : ℕ
  destination : ℕ
  session : ℕ
deriving DecidableEq

/-- `struct harbor_msg`; the `size` is the length of the buffer. -/
structure HarborMsg where
  header : Header
  buffer : List UInt8
  stamp : ℕ
deriving DecidableEq

/-- `struct keyvalue` -/
structure KeyValue where
  value : ℕ
  queue : Option (List HarborMsg)
deriving DecidableEq

/-- `STATUS_WAIT` to `STATUS_DOWN` -/
inductive Status where
  | wait
  | handshake
  | header
  | content
  | down
deriving DecidableEq

/-- `struct slave`; of `size` and `recv_buffer` only the first `read` bytes count. -/
structure Slave where
  fd : ℕ
  queue : Option (List HarborMsg)
  status : Status
  length : ℕ
  read : ℕ
  size : List UInt8
  recvBuffer : List UInt8
deriving DecidableEq

/-- `struct harbor` -/
structure Harbor where
  id : ℕ
  slave : ℕ
  map : Name → KeyValue
  s : ℕ → Slave

/-- The texts of `skynet_error`. -/
inductive Log where
  /-- "remote message from :%08x to :%08x is too large." -/
  | tooLarge (source destination : ℕ)
  /-- "Unknown destination :%x from :%x type(%d)" -/
  | unknownDestination (destination source type : ℕ)
  /-- "Drop message to %s (in harbor %d)" -/
  | dropName (name : Name) (id : ℕ)
  /-- "Drop message to harbor %d from %x to %x (session = %d, msgsz = %d)" -/
  | dropMessage (id source destination session msgsz : ℕ)
  /-- "Invalid socket fd (%d) data" -/
  | invalidSocket (fd : ℕ)
  /-- "Invalid shakehand id (%d) from fd = %d , harbor = %d" -/
  | invalidShakehand (id fd remoteId : ℕ)
  /-- "Message is too long from harbor %d" -/
  | tooLong (id : ℕ)
  /-- "Invalid global name %s" -/
  | invalidName (name : Name)
  /-- "Invalid command %c %s" -/
  | invalidCommand
  /-- "Harbor %d alreay exist" -/
  | alreadyExist (id : ℕ)
  /-- "Unknown command %s" -/
  | unknownCommand
  /-- "Unkown fd (%d) closed" -/
  | unknownFd (fd : ℕ)
  /-- "message havn't send to Harbor (%d) reach %d K" -/
  | warning (id size : ℕ)
  /-- "recv invalid socket message type %d" -/
  | invalidSocketType
  /-- "recv invalid message from %x,  type = %d" -/
  | invalidMessage (source type : ℕ)
deriving DecidableEq

/-- The calls of the service. -/
inductive Effect where
  /-- `skynet_send` of a message of another service (`PTYPE_TAG_DONTCOPY`) -/
  | deliver (source destination type session : ℕ) (buffer : List UInt8) (stamp : Option ℕ)
  /-- `skynet_send` of an empty message of type `PTYPE_ERROR` -/
  | answer (source destination session : ℕ)
  /-- `skynet_send` of "Q name" to the slave service -/
  | query (name : Name)
  /-- `skynet_send` of "D id" to the slave service -/
  | reportDown (id : ℕ)
  /-- `send_remote`, with the status of the slave at this moment -/
  | sendRemote (fd : ℕ) (status : Status) (m : HarborMsg)
  /-- `skynet_socket_send` of the byte of the handshake -/
  | handshake (fd : ℕ) (byte : UInt8)
  /-- `skynet_socket_start` -/
  | socketStart (fd : ℕ)
  /-- `skynet_socket_close` -/
  | socketClose (fd : ℕ)
  /-- the cookie is read before the begin of a message of less than 12 bytes -/
  | outOfBounds
  | error (log : Log)
deriving DecidableEq

/-- `close_harbor` -/
def closeHarbor (s : Slave) : Slave × List Effect :=
  ({ s with status := .down, queue := none }, if s.fd ≠ 0 then [.socketClose s.fd] else [])

/-! ## The wire -/

/-- `to_bigendian` -/
def toBigendian (n : ℕ) : List UInt8 :=
  [UInt8.ofNat (n >>> 24), UInt8.ofNat (n >>> 16), UInt8.ofNat (n >>> 8), UInt8.ofNat n]

/-- `from_bigendian`, of four bytes -/
def fromBigendian (bytes : List UInt8) : ℕ :=
  (bytes.getD 0 0).toNat <<< 24 ||| (bytes.getD 1 0).toNat <<< 16 |||
    (bytes.getD 2 0).toNat <<< 8 ||| (bytes.getD 3 0).toNat

/-- `header_to_message` -/
def headerToMessage (header : Header) : List UInt8 :=
  toBigendian header.source ++ toBigendian header.destination ++ toBigendian header.session

/-- `message_to_header` -/
def messageToHeader (message : List UInt8) : Header where
  source := fromBigendian message
  destination := fromBigendian (message.drop 4)
  session := fromBigendian (message.drop 8)

/-- What `send_remote` writes to the socket; `none` when the message is too large. -/
def sendRemote (buffer : List UInt8) (cookie : Header) : Option (List UInt8) :=
  let szHeader := buffer.length + headerCookieLength
  if uint32Max < szHeader then none
  else some (toBigendian szHeader ++ buffer ++ headerToMessage cookie)

/-- `forward_local_messsage`; `alive` says whether `skynet_send` finds the handle. -/
def forwardLocalMessage (id : ℕ) (alive : ℕ → Bool) (msg : List UInt8) : List Effect :=
  if msg.length < headerCookieLength then [.outOfBounds]
  else
    let header := messageToHeader (msg.drop (msg.length - headerCookieLength))
    let type := header.destination >>> handleRemoteShift
    let destination := (header.destination &&& handleMask) ||| id <<< handleRemoteShift
    .deliver header.source destination type header.session
        (msg.take (msg.length - headerCookieLength)) none ::
      if alive destination then []
      else
        (if type ≠ ptypeError then [.answer destination header.source header.session] else []) ++
          [.error (.unknownDestination destination header.source type)]

/-- The branch `STATUS_CONTENT` of `push_socket_data`: the slave, the effects, and the rest of the
chunk when the loop goes on. `hid` is the id of the harbor itself, `id` that of the slave. -/
def pushContent (hid : ℕ) (alive : ℕ → Bool) (s : Slave) (buffer : List UInt8) :
    Slave × List Effect × Option (List UInt8) :=
  let need := s.length - s.read
  if buffer.length < need then
    ({ s with recvBuffer := s.recvBuffer.take s.read ++ buffer, read := s.read + buffer.length },
      [], none)
  else
    let recvBuffer := s.recvBuffer.take s.read ++ buffer.take need
    ({ s with length := 0, read := 0, recvBuffer := [], status := .header },
      forwardLocalMessage hid alive recvBuffer,
      if (buffer.drop need).length = 0 then none else some (buffer.drop need))

/-- The length of a message is read. -/
def startContent (s : Slave) : Slave :=
  { s with
    length := (s.size.getD 1 0).toNat <<< 16 ||| (s.size.getD 2 0).toNat <<< 8 |||
      (s.size.getD 3 0).toNat
    read := 0
    recvBuffer := []
    status := .content }

/-- The branch `STATUS_HEADER`, which goes through to the next one. -/
def pushHeader (hid : ℕ) (alive : ℕ → Bool) (id : ℕ) (s : Slave) (buffer : List UInt8) :
    Slave × List Effect × Option (List UInt8) :=
  let need := 4 - s.read
  if buffer.length < need then
    ({ s with size := s.size.take s.read ++ buffer, read := s.read + buffer.length }, [], none)
  else
    let s := { s with size := s.size.take s.read ++ buffer.take need }
    let buffer := buffer.drop need
    if s.size.getD 0 0 ≠ 0 then
      ((closeHarbor s).1, .error (.tooLong id) :: (closeHarbor s).2, none)
    else if buffer.length = 0 then (startContent s, [], none)
    else pushContent hid alive (startContent s) buffer

/-- The loop of `push_socket_data`, from its second round on or after the handshake. -/
def pushLoop (hid : ℕ) (alive : ℕ → Bool) (id : ℕ) :
    ℕ → Slave → List UInt8 → Slave × List Effect
  | 0, s, _ => (s, [])
  | fuel + 1, s, buffer =>
    match s.status with
    | .header =>
      match pushHeader hid alive id s buffer with
      | (s, es, none) => (s, es)
      | (s, es, some buffer) =>
        ((pushLoop hid alive id fuel s buffer).1, es ++ (pushLoop hid alive id fuel s buffer).2)
    | .content =>
      match pushContent hid alive s buffer with
      | (s, es, none) => (s, es)
      | (s, es, some buffer) =>
        ((pushLoop hid alive id fuel s buffer).1, es ++ (pushLoop hid alive id fuel s buffer).2)
    | _ => (s, [])

/-- The rounds that the bytes of a chunk allow. -/
def pushRounds (buffer : List UInt8) : ℕ := buffer.length + 2

/-- `dispatch_queue` -/
def dispatchQueue (s : Slave) : Slave × List Effect :=
  match s.queue with
  | none => (s, [])
  | some queue => ({ s with queue := none }, queue.map (.sendRemote s.fd s.status))

/-- The branch `STATUS_HANDSHAKE` -/
def pushHandshake (hid : ℕ) (alive : ℕ → Bool) (id : ℕ) (s : Slave) (buffer : List UInt8) :
    Slave × List Effect :=
  let remoteId := (buffer.getD 0 0).toNat
  if remoteId ≠ id then
    ((closeHarbor s).1, .error (.invalidShakehand id s.fd remoteId) :: (closeHarbor s).2)
  else
    let s := { s with status := .header }
    let buffer := buffer.drop 1
    let (s, es) := dispatchQueue s
    ((pushLoop hid alive id (pushRounds buffer) s buffer).1,
      es ++ (pushLoop hid alive id (pushRounds buffer) s buffer).2)

/-- The loop of `push_socket_data` -/
def pushSlave (hid : ℕ) (alive : ℕ → Bool) (id : ℕ) (s : Slave) (buffer : List UInt8) :
    Slave × List Effect :=
  match s.status with
  | .handshake => pushHandshake hid alive id s buffer
  | _ => pushLoop hid alive id (pushRounds buffer) s buffer

/-- `harbor_id`: the first slave with this socket, 0 when there is none -/
def harborId (h : Harbor) (fd : ℕ) : ℕ :=
  ((List.range' 1 (remoteMax - 1)).find? fun i => (h.s i).fd = fd).getD 0

def Harbor.setSlave (h : Harbor) (id : ℕ) (s : Slave) : Harbor :=
  { h with s := Function.update h.s id s }

def Harbor.setNode (h : Harbor) (name : Name) (node : KeyValue) : Harbor :=
  { h with map := Function.update h.map name node }

/-- `push_socket_data` -/
def pushSocketData (h : Harbor) (alive : ℕ → Bool) (fd : ℕ) (buffer : List UInt8) :
    Harbor × List Effect :=
  let id := harborId h fd
  if id = 0 then (h, [.error (.invalidSocket fd)])
  else
    let (s, es) := pushSlave h.id alive id (h.s id) buffer
    (h.setSlave id s, es)

/-! ## Names -/

/-- `dispatch_name_queue` -/
def dispatchNameQueue (h : Harbor) (name : Name) : Harbor × List Effect :=
  let node := h.map name
  let queue := node.queue.getD []
  let handle := node.value
  let harborId := handle >>> handleRemoteShift
  let s := h.s harborId
  if s.fd = 0 then
    if s.status = .down then (h, [.error (.dropName name harborId)])
    else
      let (h, s) :=
        match s.queue with
        | none => (h.setNode name { node with queue := none }, { s with queue := node.queue })
        | some slaveQueue =>
          (h.setNode name { node with queue := some [] },
            { s with queue := some (slaveQueue ++ queue) })
      if harborId = h.slave >>> handleRemoteShift then
        -- the harbor_id is local
        (h.setSlave harborId { s with queue := none }, (s.queue.getD []).map fun m =>
          .deliver m.header.source handle (m.header.destination >>> handleRemoteShift)
            m.header.session m.buffer (some m.stamp))
      else (h.setSlave harborId s, [])
  else
    (h.setNode name { node with queue := some [] }, queue.map fun m =>
      .sendRemote s.fd s.status { m with
        header := { m.header with
          destination := m.header.destination ||| (handle &&& handleMask) } })

/-- `update_name` -/
def updateName (h : Harbor) (name : Name) (handle : ℕ) : Harbor × List Effect :=
  let h := h.setNode name { h.map name with value := handle }
  match (h.map name).queue with
  | none => (h, [])
  | some _ =>
    let (h, es) := dispatchNameQueue h name
    (h.setNode name { h.map name with queue := none }, es)

/-! ## Sending -/

/-- `remote_send_handle` -/
def remoteSendHandle (h : Harbor) (source destination type session : ℕ) (msg : List UInt8)
    (stamp : ℕ) : Harbor × List Effect :=
  let harborId := destination >>> handleRemoteShift
  if harborId = h.id then
    (h, [.deliver source destination type session msg (some stamp)])
  else
    let s := h.s harborId
    let header : Header :=
      ⟨source, type <<< handleRemoteShift ||| (destination &&& handleMask), session⟩
    if s.fd = 0 ∨ s.status = .handshake then
      if s.status = .down then
        (h, [.answer destination source 0,
          .error (.dropMessage harborId source destination session msg.length)])
      else
        (h.setSlave harborId { s with queue := some (s.queue.getD [] ++ [⟨header, msg, stamp⟩]) },
          [])
    else (h, [.sendRemote s.fd s.status ⟨header, msg, stamp⟩])

/-- `remote_send_name` -/
def remoteSendName (h : Harbor) (source : ℕ) (name : Name) (type session : ℕ) (msg : List UInt8)
    (stamp : ℕ) : Harbor × List Effect :=
  let node := h.map name
  if node.value = 0 then
    let header : Header := ⟨source, type <<< handleRemoteShift, session⟩
    (h.setNode name { node with queue := some (node.queue.getD [] ++ [⟨header, msg, stamp⟩]) },
      [.query name])
  else remoteSendHandle h source node.value type session msg stamp

/-! ## Commands and messages -/

/-- A command, the text of which is parsed. -/
inductive Command where
  /-- 'N' -/
  | name (name : Name)
  /-- 'S' -/
  | connect (fd id : ℕ)
  /-- 'A' -/
  | accept (fd id : ℕ)
  | unknown

/-- The branches 'S' and 'A' of `harbor_command` -/
def newConnection (h : Harbor) (fd id : ℕ) (accept : Bool) : Harbor × List Effect :=
  if fd = 0 ∨ id = 0 ∨ remoteMax ≤ id then (h, [.error .invalidCommand])
  else
    let s := h.s id
    if s.fd ≠ 0 then (h, [.error (.alreadyExist id)])
    else
      let s := { s with fd := fd }
      let es := [.socketStart fd, .handshake fd (UInt8.ofNat h.id)]
      if accept then
        let (s, flushed) := dispatchQueue { s with status := .header }
        (h.setSlave id s, es ++ flushed)
      else (h.setSlave id { s with status := .handshake }, es)

/-- `harbor_command` -/
def harborCommand (h : Harbor) (command : Command) (source : ℕ) : Harbor × List Effect :=
  match command with
  | .name name =>
    if name.length = 0 ∨ globalnameLength ≤ name.length then (h, [.error (.invalidName name)])
    else updateName h name source
  | .connect fd id => newConnection h fd id false
  | .accept fd id => newConnection h fd id true
  | .unknown => (h, [.error .unknownCommand])

/-- `struct remote_name`, where a handle of 0 stands for the name -/
structure RemoteName where
  name : Name
  handle : ℕ

/-- What `mainloop` receives. -/
inductive Message where
  /-- `SKYNET_SOCKET_TYPE_DATA`; `alive` says which handles are found while it is forwarded -/
  | data (fd : ℕ) (buffer : List UInt8) (alive : ℕ → Bool)
  /-- `SKYNET_SOCKET_TYPE_ERROR` and `SKYNET_SOCKET_TYPE_CLOSE` -/
  | closed (fd : ℕ)
  /-- `SKYNET_SOCKET_TYPE_CONNECT` -/
  | connected
  /-- `SKYNET_SOCKET_TYPE_WARNING` -/
  | warning (fd size : ℕ)
  /-- another type of socket message -/
  | otherSocket
  /-- `PTYPE_HARBOR` -/
  | command (command : Command) (source : ℕ)
  /-- `PTYPE_SYSTEM`: a remote message out -/
  | remote (source : ℕ) (destination : RemoteName) (type session : ℕ) (msg : List UInt8)
  /-- another type of message -/
  | other (source type session : ℕ)

/-- `mainloop`, for the message with this number -/
def mainloop (h : Harbor) (stamp : ℕ) : Message → Harbor × List Effect
  | .data fd buffer alive => pushSocketData h alive fd buffer
  | .closed fd =>
    let id := harborId h fd
    if id ≠ 0 then (h, [.reportDown id]) else (h, [.error (.unknownFd fd)])
  | .connected => (h, [])
  | .warning fd size =>
    let id := harborId h fd
    if id ≠ 0 then (h, [.error (.warning id size)]) else (h, [])
  | .otherSocket => (h, [.error .invalidSocketType])
  | .command command source => harborCommand h command source
  | .remote source destination type session msg =>
    if destination.handle = 0 then
      remoteSendName h source destination.name type session msg stamp
    else remoteSendHandle h source destination.handle type session msg stamp
  | .other source type session =>
    (h, .error (.invalidMessage source type) ::
      if session ≠ 0 ∧ type ≠ ptypeError then [.answer 0 source session] else [])

/-- `harbor_create` and `harbor_init` -/
def harborInit (id slave : ℕ) : Harbor where
  id := id
  slave := slave
  map := fun _ => ⟨0, none⟩
  s := fun _ => ⟨0, none, .wait, 0, 0, [], []⟩

end SkynetEureka.HarborService
