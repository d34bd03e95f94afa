import SkynetEureka.Lib.Run
import SkynetEureka.HarborMaster.Cslave

/-!
# The master and its slaves

Each slave has one connection to the master, under the socket id of the master, and each direction
of a connection is a queue. A connection may break at any time: the two sides notice it apart from
each other, and what was under way is lost or is still read. A broken connection is not taken up
again.
-/

namespace SkynetEureka.HarborMaster

open Lib Function

/-- Which function of the master reads from the socket. -/
inductive Reader where
  | handshake
  | monitorSlave (slaveId : ℕ)
  | closed
deriving DecidableEq

/-- A slave and its connection. -/
structure Connection where
  slave : Slave
  /-- the slave has read 'W' -/
  started : Bool
  /-- the slave reads from its socket -/
  alive : Bool
  reader : Reader
  /-- to the master -/
  up : List Request
  /-- to the slave -/
  down : List Report

structure Network where
  master : Master
  connection : ℕ → Option Connection
  /-- what the master has written so far -/
  sent : List (ℕ × Report)
  /-- the other calls of the slaves -/
  log : List (ℕ × Output)

def Network.set (net : Network) (fd : ℕ) (c : Connection) : Network :=
  { net with connection := update net.connection fd (some c) }

theorem Network.set_connection (net : Network) (fd : ℕ) (c : Connection) (fd' : ℕ) :
    (net.set fd c).connection fd' = if fd' = fd then some c else net.connection fd' :=
  update_apply ..

/-- What is written to a socket, if the master has not closed it. -/
def Connection.receive (c : Connection) (fd : ℕ) (written : List (ℕ × Report)) : Connection :=
  if c.reader = .closed then c
  else { c with down := c.down ++ (written.filter fun w => w.1 = fd).map Prod.snd }

/-- The master goes on as `m` and has written this. -/
def Network.write (net : Network) (m : Master) (written : List (ℕ × Report)) : Network :=
  { net with
    master := m
    connection := fun fd => (net.connection fd).map fun c => c.receive fd written
    sent := net.sent ++ written }

/-- The connection of a slave ends: `monitor_slave` after its loop, or a handshake that failed -/
def Network.close (net : Network) (fd : ℕ) (c : Connection) : Network :=
  match c.reader with
  | .monitorSlave slaveId =>
    (net.set fd { c with reader := .closed }).write (slaveDown net.master slaveId).1
      (slaveDown net.master slaveId).2
  | _ => net.set fd { c with reader := .closed }

/-- The master reads the package `p`, and the connection becomes `c`. -/
def Network.masterReads (net : Network) (fd : ℕ) (c : Connection) (p : Request) : Network :=
  match c.reader with
  | .handshake =>
    match handshake net.master fd p with
    | some (m, slaveId, written) =>
      (net.set fd { c with reader := .monitorSlave slaveId }).write m written
    | none => net.close fd c
  | .monitorSlave _ =>
    match dispatchSlave net.master fd p with
    | (m, some written) => (net.set fd c).write m written
    | (m, none) => ({ net with master := m }).close fd c
  | .closed => net

/-- The slave reads the package `p`, and the connection becomes `c`. -/
def Network.slaveReads (net : Network) (fd : ℕ) (c : Connection) (p : Report) : Network :=
  if c.started then
    { net.set fd { c with slave := (monitorMaster c.slave p).1 } with
      log := net.log ++ (monitorMaster c.slave p).2.map fun o => (fd, o) }
  else
    match p with
    | .wait _ => net.set fd { c with started := true }
    -- the assertion "slave shakehand failed"
    | _ => net.set fd { c with alive := false }

/-- A service of the slave has been served. -/
def Network.serve (net : Network) (fd : ℕ) (c : Connection)
    (result : Slave × List Request × List Output) : Network :=
  { net.set fd { c with
      slave := result.1
      up := if c.alive then c.up ++ result.2.1 else c.up } with
    log := net.log ++ result.2.2.map fun o => (fd, o) }

inductive Action where
  /-- a slave starts and writes 'H' -/
  | connect (fd slaveId : ℕ) (slaveAddr : List UInt8)
  | masterReads (fd : ℕ)
  /-- `read_package` of the master fails -/
  | masterLoses (fd : ℕ)
  | slaveReads (fd : ℕ)
  /-- `read_package` of the slave fails -/
  | slaveLoses (fd : ℕ)
  | ready (fd : ℕ)
  | register (fd : ℕ) (name : Name) (handle : ℕ)
  | queryName (fd session : ℕ) (name : Name)
  /-- "Q name" of the harbor service -/
  | harborQuery (fd : ℕ) (name : Name)

def Network.step (net : Network) : Action → Option Network
  | .connect fd slaveId slaveAddr =>
    if fd = 0 ∨ (net.connection fd).isSome then none
    else
      (packPackage Request.values (.handshake slaveId slaveAddr)).map fun message =>
        net.set fd ⟨Slave.init, false, true, .handshake, [message], []⟩
  | .masterReads fd =>
    (net.connection fd).bind fun c =>
      match c.up with
      | [] => none
      | p :: up =>
        if c.reader = .closed then none else some (net.masterReads fd { c with up := up } p)
  | .masterLoses fd =>
    (net.connection fd).bind fun c =>
      if c.reader = .closed then none else some (net.close fd c)
  | .slaveReads fd =>
    (net.connection fd).bind fun c =>
      match c.down with
      | [] => none
      | p :: down =>
        if c.alive then some (net.slaveReads fd { c with down := down } p) else none
  | .slaveLoses fd => (net.connection fd).map fun c => net.set fd { c with alive := false }
  | .ready fd =>
    (net.connection fd).bind fun c =>
      if c.started && !c.slave.ready then
        some (net.serve fd c ((HarborMaster.ready c.slave).1, [], (HarborMaster.ready c.slave).2))
      else none
  | .register fd name handle =>
    (net.connection fd).map fun c => net.serve fd c (HarborMaster.register c.slave name handle)
  | .queryName fd session name =>
    (net.connection fd).map fun c => net.serve fd c (HarborMaster.queryName c.slave session name)
  | .harborQuery fd name =>
    (net.connection fd).map fun c => net.serve fd c (monitorHarbor c.slave name)

def Network.init : Network where
  master := Master.init
  connection := fun _ => none
  sent := []
  log := []

/-- The slave is connected to the master. -/
def Connection.Connected (c : Connection) : Prop := c.alive = true ∧ c.reader ≠ .closed

instance (c : Connection) : Decidable c.Connected :=
  inferInstanceAs (Decidable (c.alive = true ∧ c.reader ≠ .closed))

end SkynetEureka.HarborMaster
