import SkynetEureka.HandleStore.Names

/-!
# Sending messages (`skynet_server.c`, `skynet_harbor.c`)

A payload is a block of the heap, and a pointer to one may be `NULL`. Messages are kept in the order
in which they are pushed, each with the context whose queue takes it. `skynet_context_push` grabs
and releases the context around the push, so that its count of references is left as it was.
-/

namespace SkynetEureka.Server

open HandleStore

/-- `PTYPE_TAG_DONTCOPY` -/
def ptypeTagDontcopy : BitVec 32 := 0x10000

/-- `PTYPE_TAG_ALLOCSESSION` -/
def ptypeTagAllocsession : BitVec 32 := 0x20000

/-- `PTYPE_SYSTEM` -/
def ptypeSystem : ℕ := 4

/-- `PTYPE_HARBOR` -/
def ptypeHarbor : ℕ := 5

/-- `MESSAGE_TYPE_MASK` -/
def messageTypeMask : BitVec 64 := 0x00ffffffffffffff

/-- `MESSAGE_TYPE_SHIFT` -/
def messageTypeShift : ℕ := 56

/-- `GLOBALNAME_LENGTH` -/
def globalnameLength : ℕ := 16

/-- `sizeof(struct remote_message)` -/
def sizeofRemoteMessage : BitVec 64 := 48

/-- A `void *` to a payload -/
abbrev Ptr := Option ℕ

/-- `struct remote_name` -/
structure RemoteName where
  name : List UInt8
  handle : ℕ

/-- `struct remote_message` -/
structure RemoteMessage where
  destination : RemoteName
  message : Ptr
  sz : BitVec 64
  type : ℕ

/-- What the `data` of a message points to: a payload, or what the harbor is to send -/
inductive Data where
  | payload (p : Ptr)
  | remote (rmsg : RemoteMessage)

/-- `struct skynet_message` -/
structure Message where
  source : ℕ
  session : ℤ
  data : Data
  sz : BitVec 64

/-- What ends a call without a return: a failed assertion, or an access to memory that is not
allocated -/
inductive Stop where
  | abort
  | fault
  deriving DecidableEq

/-- A node: the handle store and the names, `HARBOR` (if it is set) and `REMOTE`, the fields of each
context, the heap with the number of the next block, and what has been done so far: which blocks
were freed, which messages were pushed, which errors were reported -/
structure Node where
  store : HandleStorage
  names : NameStorage
  harbor : Option ℕ
  remote : Option Ctx
  handle : Ctx → ℕ
  sessionId : Ctx → ℤ
  heap : ℕ → Option (List UInt8)
  next : ℕ
  freed : List ℕ
  pushed : List (Ctx × Message)
  errors : List (Ctx × String)

namespace Node

/-- `skynet_malloc`, and the bytes that the caller stores -/
def malloc (s : Node) (bytes : List UInt8) : Node × Ptr :=
  ({ s with heap := Function.update s.heap s.next (some bytes), next := s.next + 1 }, some s.next)

/-- `skynet_free` -/
def free (s : Node) : Ptr → Except Stop Node
  | none => .ok s
  | some b =>
    if (s.heap b).isSome then
      .ok { s with heap := Function.update s.heap b none, freed := s.freed ++ [b] }
    else .error .fault

/-- `skynet_error` -/
def error (s : Node) (context : Ctx) (text : String) : Node :=
  { s with errors := s.errors ++ [(context, text)] }

/-- `skynet_mq_push` on the queue of a context -/
def push (s : Node) (ctx : Ctx) (m : Message) : Node := { s with pushed := s.pushed ++ [(ctx, m)] }

end Node

/-- The bytes that `memcpy` reads -/
def copied (s : Node) (b : ℕ) (sz : ℕ) : Except Stop (List UInt8) :=
  match s.heap b with
  | some bytes => if sz ≤ bytes.length then .ok (bytes.take sz) else .error .fault
  | none => .error .fault

/-- `skynet_context_newsession` -/
def skynetContextNewsession (s : Node) (context : Ctx) : Node × ℤ :=
  let session := (s.sessionId context + 1).bmod (2 ^ 32)
  if session ≤ 0 then ({ s with sessionId := Function.update s.sessionId context 1 }, 1)
  else ({ s with sessionId := Function.update s.sessionId context session }, session)

/-- The session in `_filter_args` -/
def filterSession (s : Node) (context : Ctx) (type : BitVec 32) (session : ℤ) :
    Except Stop (Node × ℤ) :=
  if type &&& ptypeTagAllocsession ≠ 0 then
    if session = 0 then .ok (skynetContextNewsession s context) else .error .abort
  else .ok (s, session)

/-- The payload in `_filter_args` -/
def filterData (s : Node) (type : BitVec 32) (data : Ptr) (sz : BitVec 64) :
    Except Stop (Node × Ptr) :=
  match data with
  | some b =>
    if type &&& ptypeTagDontcopy = 0 then do
      let msg ← copied s b sz.toNat
      .ok (s.malloc (msg ++ [0]))
    else .ok (s, some b)
  | none => .ok (s, none)

/-- `_filter_args`: the session, the pointer and the size with the type that the caller goes on
with -/
def filterArgs (s : Node) (context : Ctx) (type : BitVec 32) (session : ℤ) (data : Ptr)
    (sz : BitVec 64) : Except Stop (Node × ℤ × Ptr × BitVec 64) := do
  let (s, session) ← filterSession s context type session
  let (s, data) ← filterData s type data sz
  .ok (s, session, data, sz ||| (type &&& 0xff).setWidth 64 <<< messageTypeShift)

/-- `skynet_harbor_message_isremote` -/
def skynetHarborMessageIsremote (s : Node) (handle : ℕ) : Except Stop Bool :=
  match s.harbor with
  | none => .error .abort
  | some harbor =>
    let h := handle &&& 0xff000000
    .ok (h ≠ harbor ∧ h ≠ 0)

/-- `skynet_harbor_send` -/
def skynetHarborSend (s : Node) (rmsg : RemoteMessage) (source : ℕ) (session : ℤ) :
    Except Stop Node :=
  if rmsg.type ≠ ptypeSystem ∧ rmsg.type ≠ ptypeHarbor then
    match s.remote with
    | some ctx =>
      let sz := sizeofRemoteMessage ||| BitVec.ofNat 64 ptypeSystem <<< messageTypeShift
      .ok (s.push ctx ⟨source, session, .remote rmsg, sz⟩)
    | none => .error .abort
  else .error .abort

/-- `skynet_context_push`: whether the handle stands for a context, which then has the message -/
def skynetContextPush (s : Node) (handle : ℕ) (m : Message) : Node × Bool :=
  match skynetHandleGrab s.handle s.store handle with
  | none => (s, false)
  | some ctx => (s.push ctx m, true)

/-- `if (type & PTYPE_TAG_DONTCOPY) { skynet_free(data); }` -/
def freeGiven (s : Node) (type : BitVec 32) (data : Ptr) : Except Stop Node :=
  if type &&& ptypeTagDontcopy ≠ 0 then s.free data else .ok s

/-- Hexadecimal digits -/
def hex (n : ℕ) : String := String.ofList (Nat.toDigits 16 n)

/-- `skynet_send` -/
def skynetSend (s : Node) (context : Ctx) (source destination : ℕ) (type : BitVec 32)
    (session : ℤ) (data : Ptr) (sz : BitVec 64) : Except Stop (Node × ℤ) := do
  if sz &&& messageTypeMask ≠ sz then
    let s := s.error context ("The message to " ++ hex destination ++ " is too large")
    let s ← freeGiven s type data
    .ok (s, -2)
  else do
    let (s, session, data, sz) ← filterArgs s context type session data sz
    let source := if source = 0 then s.handle context else source
    if destination = 0 then
      if data.isSome then do
        let s := s.error context "Destination address can't be 0"
        let s ← s.free data
        .ok (s, -1)
      else .ok (s, session)
    else do
      let remote ← skynetHarborMessageIsremote s destination
      if remote then do
        let rmsg : RemoteMessage := { destination := ⟨[], destination⟩, message := data,
                                      sz := sz &&& messageTypeMask,
                                      type := (sz >>> messageTypeShift).toNat }
        let s ← skynetHarborSend s rmsg source session
        .ok (s, session)
      else
        match skynetContextPush s destination ⟨source, session, .payload data, sz⟩ with
        | (s, true) => .ok (s, session)
        | (s, false) => do
          let s ← s.free data
          .ok (s, -1)

/-! ## Names -/

/-- `isspace` -/
def isSpace (b : UInt8) : Bool := b = 32 || (9 ≤ b && b ≤ 13)

/-- The value of a hexadecimal digit -/
def hexDigit (b : UInt8) : Option ℕ :=
  if 48 ≤ b ∧ b ≤ 57 then some (b.toNat - 48)
  else if 97 ≤ b ∧ b ≤ 102 then some (b.toNat - 87)
  else if 65 ≤ b ∧ b ≤ 70 then some (b.toNat - 55)
  else none

/-- The hexadecimal digits that a text begins with, as a number -/
def hexDigits (n : ℕ) : List UInt8 → ℕ
  | [] => n
  | b :: bs => match hexDigit b with
    | some d => hexDigits (16 * n + d) bs
    | none => n

/-- The number at the front of a text, with its `0x` if it has one -/
def hexNumber : List UInt8 → ℕ
  | 48 :: 120 :: bs => hexDigits 0 bs
  | 48 :: 88 :: bs => hexDigits 0 bs
  | bs => hexDigits 0 bs

/-- `strtoul(addr, NULL, 16)`: a number that is too large is the largest one, also with a sign -/
def strtoul (addr : List UInt8) : ℕ :=
  let unsigned (n : ℕ) : ℕ := min n (2 ^ 64 - 1)
  match addr.dropWhile isSpace with
  | 45 :: bs =>
    let n := hexNumber bs
    if 2 ^ 64 ≤ n then 2 ^ 64 - 1 else (2 ^ 64 - n) % 2 ^ 64
  | 43 :: bs => unsigned (hexNumber bs)
  | bs => unsigned (hexNumber bs)

/-- `copy_name` -/
def copyName (addr : List UInt8) : List UInt8 :=
  let name := addr.take globalnameLength
  name ++ List.replicate (globalnameLength - name.length) 0

/-- `skynet_sendname` -/
def skynetSendname (s : Node) (context : Ctx) (source : ℕ) (addr : List UInt8) (type : BitVec 32)
    (session : ℤ) (data : Ptr) (sz : BitVec 64) : Except Stop (Node × ℤ) :=
  let source := if source = 0 then s.handle context else source
  match addr with
  -- ':'
  | 58 :: addr => skynetSend s context source (strtoul addr % 2 ^ 32) type session data sz
  -- '.'
  | 46 :: addr =>
    let des := skynetHandleFindname s.names addr
    if des = 0 then do
      let s ← freeGiven s type data
      .ok (s, -1)
    else skynetSend s context source des type session data sz
  | addr =>
    if sz &&& messageTypeMask ≠ sz then do
      let text := String.ofList (addr.map fun b => Char.ofNat b.toNat)
      let s := s.error context ("The message to " ++ text ++ " is too large")
      let s ← freeGiven s type data
      .ok (s, -2)
    else do
      let (s, session, data, sz) ← filterArgs s context type session data sz
      let rmsg : RemoteMessage := { destination := ⟨copyName addr, 0⟩, message := data,
                                    sz := sz &&& messageTypeMask,
                                    type := (sz >>> messageTypeShift).toNat }
      let s ← skynetHarborSend s rmsg source session
      .ok (s, session)

end SkynetEureka.Server
