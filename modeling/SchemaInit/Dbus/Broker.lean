/-
# `SchemaInit.Dbus.Broker` — the broker's state and what it sends (`schema-dbus.c`)

The globals of the broker are one record.  Connections are looked up by id; the
source's pointers to them are ids here.  The descriptor table is explicit: the
broker opens, duplicates and closes numbers in it.

Three fields are history the source does not keep: the closes of numbers that
were not open, the `NameOwnerChanged` signals sent, and the copies of clients'
messages handed to recipients.

Registration with epoll is left out: which connection is served next is not
determined by the model.
-/
import SchemaInit.Dbus.Activate
import SchemaInit.Dbus.Libdbus
import SchemaInit.Dbus.Route
import SchemaInit.Lib.FdTable

namespace SchemaInit.Dbus

def spawnTimeoutMs : Int := 25000
def reportPendingMax : Nat := 32

structure Waiter where
  connId : ConnId
  serial : Nat
  deriving DecidableEq

structure Reload where
  pid : Option Int
  deadline : Int
  running : Bool
  dirty : Bool
  run : List Waiter
  next : List Waiter
  tab : List SvcEnt

structure OwnerChange where
  name : Bytes
  oldOwner : Bytes
  newOwner : Bytes
  deriving DecidableEq

/-- A copy of a client's message enqueued to a recipient: the descriptor count
its header declares, and the descriptors enqueued with it. -/
structure Copy where
  dst : ConnId
  declared : Int
  fds : List Int

structure Broker where
  names : Names
  replies : Replies
  policy : Policy
  conns : List Conn
  nextId : ConnId
  bcastSerial : Nat
  driverSerial : Nat
  svctab : List SvcEnt
  acts : Acts
  nmonitors : Int
  systemBus : Bool
  draining : Bool
  actenv : List Bytes
  /-- the socket to PID 1, opened on the first report -/
  reportFd : Option Int
  reports : List (Bytes × Int)
  reload : Reload
  /-- a dissolver and a policy file are configured (`g_dissect`, `g_polfile`) -/
  dissolves : Bool
  overrideDir : Bytes
  table : FdTable Nat
  nextFile : Nat
  /-- history: closes of numbers that were not open -/
  badCloses : List Int
  /-- history: the `NameOwnerChanged` signals -/
  ownerLog : List OwnerChange
  /-- history: the copies of clients' messages -/
  copies : List Copy

/-- What the outside answers during one event: libdbus, the clock, `fork`, `sendto`. -/
structure Env where
  lib : Libdbus
  now : Int
  /-- `getuid()` -/
  uid : Nat
  /-- `sdbus__guid()` -/
  guid : Bytes
  /-- `fork` for an activated service -/
  spawn : Option Int
  /-- `sendto` PID 1 did not fail for want of room -/
  reportSent : Bytes → Int → Bool
  /-- `sdbus_svctab_parse_dirs_masked` -/
  scan : List SvcEnt
  /-- the file for the new policy opens -/
  policyTmp : Bool
  /-- `fork` for the dissolver -/
  dissolver : Option Int
  /-- `g_reload_timeout_ms` -/
  reloadTimeoutMs : Int

variable (env : Env)

namespace Broker

/-! ## Connections and descriptors -/

def conn? (b : Broker) (id : ConnId) : Option Conn :=
  KeyedList.lookup Conn.id id b.conns

def modConn (b : Broker) (id : ConnId) (f : Conn → Conn) : Broker :=
  { b with conns := KeyedList.update Conn.id id f b.conns }

def closeFd (b : Broker) (fd : Int) : Broker :=
  if fd < 0 then b
  else if (b.table.get fd).isSome then { b with table := b.table.close fd }
  else { b with badCloses := fd :: b.badCloses }

def closeFds (b : Broker) (fds : List Int) : Broker :=
  fds.foldl closeFd b

def allocFd (b : Broker) (file : Nat) : Broker × Int :=
  match b.table.alloc file with
  | none => (b, -1)
  | some (n, t) => ({ b with table := t }, n)

/-- A number for a file the broker has not had before: a socket, an accepted
connection, a received descriptor. -/
def openFd (b : Broker) : Broker × Int :=
  { b with nextFile := b.nextFile + 1 }.allocFd b.nextFile

def dupFd (b : Broker) (fd : Int) : Broker × Int :=
  match b.table.get fd with
  | none => (b, -1)
  | some file => b.allocFd file

def dupFds (b : Broker) : List Int → Broker × List Int
  | [] => (b, [])
  | fd :: fds =>
    let (b, n) := b.dupFd fd
    let (b, ns) := b.dupFds fds
    (b, n :: ns)

def enqueue (b : Broker) (id : ConnId) (bytes : Bytes) (fds : List Int) : Broker :=
  match b.conn? id with
  | none => b
  | some c =>
    if c.overflows bytes.length then
      (b.modConn id (fun c => c.enqueue bytes fds)).closeFds (fds.take maxPendingFds)
    else b.modConn id (fun c => c.enqueue bytes fds)

/-! ## Monitors -/

def monitorView (b : Broker) (w : WireMsg) : MatchView :=
  let sid := routeResolve b.names b.conns w.sender
  let did := routeResolve b.names b.conns w.destination
  { type := typeStr w.type, interface := w.interface, member := w.member, path := w.path, arg0 := w.arg0,
    sender := w.sender
    senderOwned := match sid with
      | none => []
      | some s => b.names.ownedBy s
    dest := match did.bind b.names.unique with
      | none => w.destination
      | some u => some u
    destOwned := match did with
      | none => []
      | some d => b.names.ownedBy d }

def monitorCopyTo (b : Broker) (bytes : Bytes) (fds : List Int) (skip : Option ConnId) (view : MatchView)
    (id : ConnId) : Broker :=
  match b.conn? id with
  | none => b
  | some m =>
    if m.isMonitor = false ∨ skip = some id then b
    else if fds ≠ [] ∧ m.negotiatedFd = false then b
    else if matchMessage (m.monRules.getD []) view = false then b
    else
      let (b, dups) := b.dupFds (fds.take maxPendingFds)
      b.enqueue id bytes (dups.filter (0 ≤ ·))

/-- The loop of `monitor_copy` over the messages in `bytes`; each takes at least
16 bytes. -/
def monitorCopyFrom (b : Broker) (bytes : Bytes) (fds : List Int) (skip : Option ConnId) : Nat → Broker
  | 0 => b
  | fuel + 1 =>
    if bytes = [] then b
    else
      match sdbusWireParse bytes with
      | .complete w =>
        let view := b.monitorView w
        let b := (b.conns.map Conn.id).foldl
          (fun b id => b.monitorCopyTo (bytes.take w.totalLen) fds skip view id) b
        monitorCopyFrom b (bytes.drop w.totalLen) [] skip fuel
      | _ => b

def monitorCopy (b : Broker) (bytes : Bytes) (fds : List Int) (skip : Option ConnId) : Broker :=
  if b.nmonitors = 0 then b else b.monitorCopyFrom bytes fds skip bytes.length

/-! ## The driver's own messages -/

def nextSerial (b : Broker) : Broker :=
  { b with bcastSerial := (b.bcastSerial + 1) % 2 ^ 32 }

def uniqueOf (b : Broker) (id : ConnId) : Option Bytes :=
  (b.conn? id).bind Conn.unique

def enqueueSignal (b : Broker) (id : ConnId) (member : Bytes) (args : List Arg) : Broker :=
  let b := b.nextSerial
  match env.lib.marshal
      { kind := .signal driverPath driverName member, serial := b.bcastSerial, replySerial := none,
        destination := b.uniqueOf id, args := args } with
  | none => b
  | some bytes =>
    let b := b.enqueue id bytes []
    if member = cstr "NameOwnerChanged" then b else b.monitorCopy bytes [] none

def enqueueReply (b : Broker) (id : ConnId) (kind : OutKind) (replySerial : Nat)
    (args : List Arg) : Broker × Option Bytes :=
  let b := b.nextSerial
  match env.lib.marshal
      { kind := kind, serial := b.bcastSerial, replySerial := some replySerial,
        destination := b.uniqueOf id, args := args } with
  | none => (b, none)
  | some bytes => (b.enqueue id bytes [], some bytes)

/-- `synth_error_wire` and `synth_return_wire`: monitors get a copy, unless the
connection is one. -/
def synthWire (b : Broker) (id : ConnId) (kind : OutKind) (replySerial : Nat) (args : List Arg) :
    Broker :=
  match b.enqueueReply env id kind replySerial args with
  | (b, none) => b
  | (b, some bytes) => if (b.conn? id).any Conn.isMonitor then b else b.monitorCopy bytes [] none

def synthErrorWire (b : Broker) (id : ConnId) (replySerial : Nat) (name text : Bytes) : Broker :=
  b.synthWire env id (.error name) replySerial [.str text]

def synthReturnWire (b : Broker) (id : ConnId) (replySerial : Nat) : Broker :=
  b.synthWire env id .methodReturn replySerial []

def sendNoReplyTo (text : Bytes) (b : Broker) (call : ConnId × Nat) : Broker :=
  match b.conn? call.1 with
  | none => b
  | some _ => b.synthErrorWire env call.1 call.2 (errName "NoReply") text

def drainScratch (b : Broker) (id : ConnId) : Broker :=
  match b.conn? id with
  | none => b
  | some c =>
    if c.out = [] then b
    else
      let b := if c.saidHello ∧ c.isMonitor = false then b.monitorCopy c.out [] none else b
      (b.enqueue id c.out []).modConn id (fun c => { c with out := [] })

end Broker

end SchemaInit.Dbus
