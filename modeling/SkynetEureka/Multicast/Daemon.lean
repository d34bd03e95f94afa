import SkynetEureka.Lib.Run

/-!
# Multicast (multicastd.lua, lua-multicast.c)

Each node has a daemon with the channels that its services have subscribed to. The node in the low
byte of a channel owns it, and knows which other nodes have subscribers.

The address of another daemon is looked up in the datacenter when it is needed for the first time,
and the coroutine waits for it: the message is a `Post` that has not been sent. Other messages are
handled meanwhile.
-/

namespace SkynetEureka.Multicast

open Lib Function

/-- `c % 256` -/
def owner (c : ℤ) : ℕ := (c % 256).toNat

/-- `mc_nextid` -/
def nextid (id : ℤ) : ℤ := (id + 256) % 2 ^ 32

/-- A channel in the session field of a message, an int -/
def session (c : ℤ) : ℤ := (c + 2 ^ 31) % 2 ^ 32 - 2 ^ 31

/-- `struct mc_package`, the call of `publish` that it is for, and to whom it has been sent.
`remote` is the table that the loop over other nodes goes through, and `visited` are the keys that
it has had; `inserted` tells that a key has come into the table meanwhile. `bound` is what
`mc_bindrefer` has been called with, and `freed` counts the calls of `skynet_free`. -/
structure Package where
  node : ℕ
  channel : ℤ
  source : ℕ
  publication : ℕ
  remote : Option ℕ
  visited : List ℕ
  inserted : Bool
  reference : ℤ
  bound : Option ℕ
  receivers : List ℕ
  opened : List ℕ
  freed : ℕ

/-- The messages of the daemons. A SUB that waits for its SUBR goes on with the reply. -/
inductive Message where
  | del (c : ℤ)
  | delr (c : ℤ)
  | multicast (channel : ℤ) (source publication : ℕ)
  | subr (c : ℤ) (source : ℕ)
  | reply (c : ℤ) (source : ℕ) (missing : Bool)
  | usubr (c : ℤ)

/-- A message on its way, or one that waits for the address of `dest`; then the loop of the package
`resume` waits with it. -/
structure Post where
  src : ℕ
  dest : ℕ
  message : Message
  sent : Bool
  resume : Option ℕ

/-- A daemon. The tables of `channel_remote` are numbered, because a loop may go through one that is
not in it any more. `running` is the package whose loop runs, and `used` are the ids that NEW has
returned, without those that have been deleted. -/
structure Multicastd where
  channel : ℤ → Option (List ℕ)
  channelN : ℤ → Option ℕ
  channelRemote : ℤ → Option ℕ
  tables : List (List ℕ)
  channelId : ℤ
  nodeAddress : List ℕ
  running : Option ℕ
  used : List ℤ

/-- All nodes. `published` has the owner of the channel for each publication. -/
structure State where
  node : ℕ → Multicastd
  posts : List Post
  packages : List Package
  published : List ℕ

namespace Package

variable (pack : Package)

/-- `mc_bindrefer` -/
def bindrefer (ref : ℕ) : Option Package :=
  if pack.reference ≠ 0 then none else some { pack with reference := ref, bound := some ref }

/-- `mc_closelocal` -/
def closelocal : Package :=
  let ref := pack.reference - 1
  { pack with reference := ref, freed := if ref ≤ 0 then pack.freed + 1 else pack.freed }

end Package

namespace Multicastd

variable (d : Multicastd)

def init (harborId : ℕ) : Multicastd :=
  ⟨fun _ => none, fun _ => none, fun _ => none, [], harborId, [], none, []⟩

/-- The loop of NEW. There are so many ids. -/
def freeId : ℕ → ℤ → Option ℤ
  | 0, _ => none
  | ids + 1, id => if (d.channel id).isSome then freeId ids (nextid id) else some id

/-- `command.NEW` -/
def new : Option Multicastd := do
  let id ← d.freeId (2 ^ 24) d.channelId
  some { d with
    channel := update d.channel id (some [])
    channelN := update d.channelN id (some 0)
    channelId := nextid id
    used := d.used ++ [id] }

/-- `command.DELR` -/
def delr (c : ℤ) : Multicastd :=
  { d with channel := update d.channel c none, channelN := update d.channelN c none }

/-- The end of `command.SUB` -/
def subscribe (source : ℕ) (c : ℤ) : Multicastd :=
  match d.channel c, d.channelN c with
  | some group, some n =>
    if source ∈ group then d
    else
      { d with
        channel := update d.channel c (some (group ++ [source]))
        channelN := update d.channelN c (some (n + 1)) }
  | _, _ => d

/-- `command.SUB` after the reply of the owner -/
def subscribed (source : ℕ) (c : ℤ) (missing : Bool) : Multicastd :=
  if missing then d
  else
    let d :=
      match d.channel c with
      | some _ => d
      | none =>
        { d with
          channel := update d.channel c (some [])
          channelN := update d.channelN c (some 0) }
    d.subscribe source c

/-- A node is put into the table of a channel, which may be a new one. -/
def addRemote (node : ℕ) (c : ℤ) : Multicastd :=
  match d.channelRemote c with
  | none =>
    { d with
      channelRemote := update d.channelRemote c (some d.tables.length)
      tables := d.tables ++ [[node]] }
  | some t =>
    { d with
      tables := d.tables.modify t fun table => if node ∈ table then table else table ++ [node] }

/-- `command.USUBR`, from another node -/
def usubr (node : ℕ) (c : ℤ) : Multicastd :=
  match d.channelRemote c with
  | none => d
  | some t => { d with tables := d.tables.modify t fun table => table.filter (· ≠ node) }

/-- The table of a number -/
def table (t : ℕ) : List ℕ := d.tables.getD t []

/-- The end of `publish`: the package is bound and sent to the subscribers. -/
def publishLocal (pack : Package) : Option Package :=
  match d.channel pack.channel with
  | some (k :: group) => do
    let n ← d.channelN pack.channel
    let pack ← pack.bindrefer n
    some { pack with receivers := k :: group, opened := k :: group }
  | _ => do
    -- dead channel, delete the pack
    let pack ← pack.bindrefer 1
    some pack.closelocal

end Multicastd

namespace State

variable (s : State)

def setNode (h : ℕ) (d : Multicastd) : State := { s with node := update s.node h d }

/-- A message to `node_address[dest]`; `resume` is the package whose loop sends it. -/
def send (src dest : ℕ) (message : Message) (resume : Option ℕ) : State :=
  if dest ∈ (s.node src).nodeAddress then
    { s with posts := s.posts ++ [⟨src, dest, message, true, none⟩] }
  else
    { s.setNode src { s.node src with running := none } with
      posts := s.posts ++ [⟨src, dest, message, false, resume⟩] }

/-- The end of a loop over other nodes, and of `publish` -/
def finish (k : ℕ) (pack : Package) : State :=
  let d := s.node pack.node
  { s.setNode pack.node { d with running := none } with
    packages := s.packages.set k
      ((d.publishLocal { pack with remote := none }).getD { pack with remote := none }) }

/-- `publish` at a node, up to the loop -/
def publish (h : ℕ) (c : ℤ) (source publication : ℕ) : State :=
  let d := s.node h
  let pack : Package :=
    ⟨h, c, source, publication, d.channelRemote c, [], false, 0, none, [], [], 0⟩
  match d.channelRemote c with
  | some _ =>
    { s.setNode h { d with running := some s.packages.length } with
      packages := s.packages ++ [pack] }
  | none => { s with packages := s.packages ++ [(d.publishLocal pack).getD pack] }

/-- `command.PUB`, from a service of the node -/
def pub (h source : ℕ) (c : ℤ) : State :=
  let publication := s.published.length
  let s := { s with published := s.published ++ [owner c] }
  if owner c ≠ h then s.send h (owner c) (.multicast (session c) source publication) none
  else s.publish h c source publication

/-- `command.DEL`. Its loop goes on when the address of a node is known; here each message waits
for its own. -/
def del (h : ℕ) (c : ℤ) : State :=
  let d := s.node h
  if owner c ≠ h then s.send h (owner c) (.del c) none
  else
    let s := s.setNode h
      { d.delr c with
        channelRemote := update d.channelRemote c none
        used := d.used.filter (· ≠ c) }
    match d.channelRemote c with
    | none => s
    | some t => (d.table t).foldl (fun s node => s.send h node (.delr c) none) s

/-- `command.SUB`, up to the call of the owner -/
def sub (h source : ℕ) (c : ℤ) : State :=
  let d := s.node h
  if owner c ≠ h ∧ d.channel c = none then s.send h (owner c) (.subr c source) none
  else s.setNode h (d.subscribe source c)

/-- `command.USUB` -/
def usub (h source : ℕ) (c : ℤ) : State :=
  let d := s.node h
  match d.channel c, d.channelN c with
  | some group, some n =>
    if source ∈ group then
      if n = 1 ∧ owner c ≠ h then (s.setNode h (d.delr c)).send h (owner c) (.usubr c) none
      else
        s.setNode h
          { d with
            channel := update d.channel c (some (group.erase source))
            channelN := update d.channelN c (some (n - 1)) }
    else s
  | _, _ => s

/-- The loops that go through a table at a node get to know that a key has come into it. -/
def insert (h t : ℕ) : List Package :=
  s.packages.map fun pack =>
    if pack.node = h ∧ pack.remote = some t then { pack with inserted := true } else pack

/-- `command.SUBR`. When the assertion fails, the SUB that waits fails too. -/
def subr (src h : ℕ) (c : ℤ) (source : ℕ) : State :=
  let d := s.node h
  let reply (s : State) (missing : Bool) : State :=
    { s with posts := s.posts ++ [⟨h, src, .reply c source missing, true, none⟩] }
  match d.channel c with
  | none => reply s true
  | some _ =>
    if src = h ∨ owner c ≠ h then s
    else
      let packages :=
        match d.channelRemote c with
        | none => s.packages
        | some t => if src ∈ d.table t then s.packages else s.insert h t
      reply { s.setNode h (d.addRemote src c) with packages := packages } false

/-- A message is handled. -/
def dispatch (src h : ℕ) : Message → State
  | .del c => s.del h c
  | .delr c => s.setNode h ((s.node h).delr c)
  | .multicast c source publication => s.publish h c source publication
  | .subr c source => s.subr src h c source
  | .reply c source missing => s.setNode h ((s.node h).subscribed source c missing)
  | .usubr c => if src = h then s else s.setNode h ((s.node h).usubr src c)

end State

/-- What `next` may return. It is not defined when a key has come into the table. -/
def Next (table : List ℕ) (pack : Package) : Option ℕ → Prop
  | some n => n ∈ table ∧ (pack.inserted ∨ n ∉ pack.visited)
  | none => pack.inserted ∨ ∀ n ∈ table, n ∈ pack.visited

instance (table : List ℕ) (pack : Package) : (o : Option ℕ) → Decidable (Next table pack o)
  | some n => inferInstanceAs (Decidable (n ∈ table ∧ (pack.inserted ∨ n ∉ pack.visited)))
  | none => inferInstanceAs (Decidable (pack.inserted ∨ ∀ n ∈ table, n ∈ pack.visited))

inductive Action where
  /-- requests of the services of a node -/
  | new (h : ℕ)
  | del (h : ℕ) (c : ℤ)
  | sub (h source : ℕ) (c : ℤ)
  | usub (h source : ℕ) (c : ℤ)
  | pub (h source : ℕ) (c : ℤ)
  /-- a message that has been sent arrives -/
  | deliver (i : ℕ)
  /-- an address that a message waits for is known -/
  | address (i : ℕ)
  /-- the loop of a package goes on -/
  | next (k : ℕ) (key : Option ℕ)
  /-- a service that a package has been sent to closes it -/
  | close (k source : ℕ)

namespace State

/-- The daemon of a node can handle a message. -/
def Idle (s : State) (h : ℕ) : Prop := (s.node h).running = none

instance (s : State) (h : ℕ) : Decidable (s.Idle h) :=
  inferInstanceAs (Decidable ((s.node h).running = none))

def step (s : State) : Action → Option State
  | .new h => if s.Idle h ∧ h < 256 then (s.node h).new.map (s.setNode h) else none
  | .del h c => if s.Idle h then some (s.del h c) else none
  | .sub h source c => if s.Idle h then some (s.sub h source c) else none
  | .usub h source c => if s.Idle h then some (s.usub h source c) else none
  | .pub h source c => if s.Idle h then some (s.pub h source c) else none
  | .deliver i => do
    let post ← s.posts[i]?
    if post.sent ∧ s.Idle post.dest then
      some ({ s with posts := s.posts.eraseIdx i }.dispatch post.src post.dest post.message)
    else none
  | .address i => do
    let post ← s.posts[i]?
    let d := s.node post.src
    if ¬post.sent ∧ s.Idle post.src then
      some
        { s.setNode post.src
            { d with nodeAddress := post.dest :: d.nodeAddress, running := post.resume } with
          posts := s.posts.set i { post with sent := true, resume := none } }
    else none
  | .next k key => do
    let pack ← s.packages[k]?
    let t ← pack.remote
    if (s.node pack.node).running = some k ∧ Next ((s.node pack.node).table t) pack key then
      match key with
      | none => some (s.finish k pack)
      | some n =>
        some ({ s with
          packages :=
            s.packages.set k { pack with visited := pack.visited ++ [n] } }.send pack.node n
            (.multicast (session pack.channel) pack.source pack.publication) (some k))
    else none
  | .close k source => do
    let pack ← s.packages[k]?
    if source ∈ pack.opened then
      some { s with
        packages := s.packages.set k { pack.closelocal with opened := pack.opened.erase source } }
    else none

/-- Every node has its daemon. -/
def init : State := ⟨fun h => .init h, [], [], []⟩

end State

end SkynetEureka.Multicast
