/-
# `SchemaInit.Dbus.Deliver` — relaying, holding, and announcing owners (`schema-dbus.c`)

What the broker does with other people's messages: a routed message is copied to
its targets, a message for an activatable name without owner is held, and what
is held is released when the name gets an owner or failed when the service does
not come up.  A change of owner is announced to everyone whose rules accept it.
-/
import SchemaInit.Dbus.Broker

namespace SchemaInit.Dbus

variable (env : Env)

namespace Broker

/-! ## Copies of clients' messages -/

/-- One copy, to a connection that is there and `ok`; `declared` is the count of
descriptors in the message's header. -/
def relayOne (ok : Conn → Bool) (bytes : Bytes) (declared : Int) (fds : List Int) (b : Broker) (id : ConnId) :
    Broker :=
  match b.conn? id with
  | none => b
  | some c =>
    if ok c then
      { b.enqueue id bytes fds with copies := b.copies ++ [{ dst := id, declared := declared, fds := fds }] }
    else b

def relayAll (b : Broker) (ok : Conn → Bool) (bytes : Bytes) (declared : Int) (fds : List Int) :
    List ConnId → Broker
  | [] => b
  | first :: rest => rest.foldl (relayOne ok bytes declared []) (relayOne ok bytes declared fds b first)

/-! ## Held messages -/

def releaseHeld (b : Broker) (h : HeldMsg) : Broker :=
  match h.kind with
  | .explicit =>
    let b := match b.conn? h.callerId with
      | none => b
      | some _ => (b.enqueueReply env h.callerId .methodReturn h.serial [.u32 1]).1
    b.closeFds h.fds
  | .implicit =>
    match sdbusWireParse h.bytes, b.conn? h.callerId with
    | .complete w, some caller =>
      if w.totalLen = h.bytes.length then
        let r := routeTargets w caller b.names b.conns b.policy b.replies env.now
        let b := { b with replies := r.replies }
        let b := b.relayAll (fun _ => true) h.bytes (sdbusWireNFds w) h.fds r.targets
        if h.fds ≠ [] ∧ r.targets ≠ [] then b else b.closeFds h.fds
      else b.closeFds h.fds
    | _, _ => b.closeFds h.fds

def releaseActivation (b : Broker) (name : Bytes) : Broker :=
  match actsTake b.acts name with
  | none => b
  | some (acts, held) => held.foldl (releaseHeld env) { b with acts := acts }

def failOne (name text : Bytes) (b : Broker) (h : HeldMsg) : Broker :=
  let b := match b.conn? h.callerId with
    | none => b
    | some _ => if h.expectsReply then b.synthErrorWire env h.callerId h.serial name text else b
  b.closeFds h.fds

def failHeld (b : Broker) (held : List HeldMsg) (name text : Bytes) : Broker :=
  held.foldl (failOne env name text) b

/-- The activation a message waits for: the one under way, or a new one if the
service can be spawned. -/
def beginActivation (b : Broker) (name : Bytes) : Option (Acts × Nat) :=
  match actsFind b.acts name with
  | some i => some (b.acts, i)
  | none =>
    match env.spawn with
    | none => none
    | some pid => some (actsBegin b.acts name pid (env.now + spawnTimeoutMs), b.acts.length)

def capture (c : Conn) (w : WireMsg) (raw : Bytes) (fds : List Int) : HeldMsg where
  bytes := sdbusWireReforward raw w (c.unique.getD [])
  fds := fds
  callerId := c.id
  serial := w.serial
  expectsReply := !w.noReply
  kind := .implicit

/-- `activate_or_hold`.  The duplicates are stored in the held message and then
closed. -/
def activateOrHold (b : Broker) (c : Conn) (w : WireMsg) (raw : Bytes) (nfds : Nat) :
    Broker × Bool :=
  match w.destination with
  | none => (b, false)
  | some dest =>
    if (svctabFind b.svctab dest).isNone then (b, false)
    else
      let (b, fds) := b.dupFds (c.pendingFds.take nfds)
      match b.beginActivation env dest with
      | none => (b.closeFds fds, false)
      | some (acts, i) =>
        ({ b with acts := actsHold acts i (capture c w raw fds) }.closeFds fds, true)

def consumeMsgFds (b : Broker) (id : ConnId) (nfds : Nat) (transferred : Bool) : Broker :=
  match b.conn? id with
  | none => b
  | some c =>
    let b := if transferred then b else b.closeFds (c.pendingFds.take nfds)
    b.modConn id (fun c => { c with pendingFds := c.pendingFds.drop nfds })

def dropPending (b : Broker) (id : ConnId) : Broker :=
  match b.conn? id with
  | none => b
  | some c => (b.closeFds c.pendingFds).modConn id (fun c => { c with pendingFds := [] })

/-! ## Reports to PID 1 -/

def reportSend (b : Broker) (name : Bytes) (pid : Int) : Broker × Bool :=
  match b.reportFd with
  | some _ =>
    let msg := cstr "BUSNAME=" ++ name ++ cstr ("\nBUSOWNERPID=" ++ toString pid)
    (b, decide (msg.length ≥ 320) || env.reportSent name pid)
  | none =>
    let (b, fd) := b.openFd
    if fd < 0 then (b, false)
    else
      let msg := cstr "BUSNAME=" ++ name ++ cstr ("\nBUSOWNERPID=" ++ toString pid)
      ({ b with reportFd := some fd }, decide (msg.length ≥ 320) || env.reportSent name pid)

def reportNameToPid1 (b : Broker) (name : Bytes) (pid : Int) : Broker :=
  if b.systemBus = false ∨ name.head? = some (ch ':') ∨ pid ≤ 0 then b
  else
    let (b, sent) := if b.reports = [] then b.reportSend env name pid else (b, false)
    if sent ∨ b.reports.length = reportPendingMax ∨ name.length ≥ 256 then b
    else { b with reports := b.reports ++ [(name, pid)] }

/-! ## Changes of owner -/

def uniqueOrEmpty (b : Broker) : Option ConnId → Bytes
  | none => []
  | some id => (b.names.unique id).getD []

def monitorNameOwnerChanged (b : Broker) (k : OwnerChange) : Broker :=
  if b.nmonitors = 0 then b
  else
    let b := b.nextSerial
    match env.lib.marshal
        { kind := .signal driverPath driverName (cstr "NameOwnerChanged"), serial := b.bcastSerial,
          replySerial := none, destination := none,
          args := [.str k.name, .str k.oldOwner, .str k.newOwner] } with
    | none => b
    | some bytes => b.monitorCopy bytes [] none

def ownerChangedView (name : Bytes) : MatchView :=
  { type := some (cstr "signal"), interface := some driverName, member := some (cstr "NameOwnerChanged"),
    path := some driverPath, arg0 := some name, sender := some driverName, senderOwned := [], dest := none,
    destOwned := [] }

def tellOwnerChanged (k : OwnerChange) (dying : Option ConnId) (b : Broker) (id : ConnId) : Broker :=
  match b.conn? id with
  | none => b
  | some c =>
    match c.rules with
    | none => b
    | some m =>
      if dying = some id ∨ matchSignal m (ownerChangedView k.name) = false then b
      else b.enqueueSignal env id (cstr "NameOwnerChanged") [.str k.name, .str k.oldOwner, .str k.newOwner]

def announce (b : Broker) (k : OwnerChange) (dying : Option ConnId) : Broker :=
  let b := { b with ownerLog := b.ownerLog ++ [k] }
  let b := b.monitorNameOwnerChanged env k
  (b.conns.map Conn.id).foldl (tellOwnerChanged env k dying) b

def nameLost (b : Broker) (name : Bytes) : Option ConnId → Broker
  | none => b
  | some id =>
    match b.conn? id with
    | none => b
    | some _ => b.enqueueSignal env id (cstr "NameLost") [.str name]

/-- The directed `NameAcquired`, the report to PID 1, and what was held for the name. -/
def nameAcquired (b : Broker) (name : Bytes) : Option ConnId → Broker
  | none => b
  | some id =>
    let b := match b.conn? id with
      | none => b
      | some o =>
        (b.enqueueSignal env id (cstr "NameAcquired") [.str name]).reportNameToPid1 env name o.creds.pid
    b.releaseActivation env name

def broadcastTransition (b : Broker) (t : Transition) : Broker :=
  let k : OwnerChange :=
    { name := t.name, oldOwner := b.uniqueOrEmpty t.oldOwner, newOwner := b.uniqueOrEmpty t.newOwner }
  ((b.announce env k none).nameLost env t.name t.oldOwner).nameAcquired env t.name t.newOwner

def broadcastTransitions (b : Broker) (ts : List Transition) : Broker :=
  ts.foldl (broadcastTransition env) b

def broadcastUniqueGone (b : Broker) (uniq : Bytes) (dying : ConnId) : Broker :=
  b.announce env { name := uniq, oldOwner := uniq, newOwner := [] } (some dying)

end Broker

end SchemaInit.Dbus
