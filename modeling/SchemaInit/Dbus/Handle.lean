/-
# `SchemaInit.Dbus.Handle` — one buffered message (`handle_message` of `schema-dbus.c`)

The branches of `handle_message` are one definition each, in the order of the
source: a bad descriptor count, a monitor's own traffic, the four driver calls
that touch the broker, the driver's other methods, and the routed messages.
-/
import SchemaInit.Dbus.Driver
import SchemaInit.Dbus.Reload

namespace SchemaInit.Dbus

namespace Broker

/-- The end of most branches: the scratch buffer goes out, and the message's
descriptors are closed unless they were handed on. -/
def finishMessage (b : Broker) (id : ConnId) (nfds : Nat) (transferred : Bool) : Broker :=
  (b.drainScratch id).consumeMsgFds id nfds transferred

def refuse (env : Env) (b : Broker) (id : ConnId) (w : WireMsg) (nfds : Nat) (err text : String) : Broker :=
  (b.synthErrorWire env id w.serial (errName err) (cstr text)).finishMessage id nfds false

/-- The copy of an arriving message for the monitors, with its sender stamped if
it has one. -/
def monitorInbound (b : Broker) (c : Conn) (w : WireMsg) (raw : Bytes) (nfds : Nat) : Broker :=
  match c.unique with
  | some u => b.monitorCopy (sdbusWireReforward raw w u) (c.pendingFds.take nfds) (some c.id)
  | none => b.monitorCopy raw (c.pendingFds.take nfds) (some c.id)

def toDriver (w : WireMsg) : Bool :=
  w.destination = some driverName || (w.destination = none && w.interface = some peerInterface)

/-! ## Driver calls that touch the broker -/

def startTarget (env : Env) (raw : Bytes) : Option Bytes :=
  match (env.lib.demarshal raw).map DriverCall.args with
  | some (.str target :: .u32 _ :: _) => some target
  | _ => none

def startRequest (caller : ConnId) (serial : Nat) : HeldMsg where
  bytes := []
  fds := []
  callerId := caller
  serial := serial
  expectsReply := true
  kind := .explicit

def startServiceByName (env : Env) (b : Broker) (c : Conn) (w : WireMsg) (raw : Bytes) : Broker :=
  match startTarget env raw with
  | none => b.synthErrorWire env c.id w.serial (errName "InvalidArgs") (cstr "StartServiceByName needs a name")
  | some target =>
    if (b.names.owner target).isSome then
      (b.enqueueReply env c.id .methodReturn w.serial [.u32 2]).1
    else if (svctabFind b.svctab target).isNone then
      b.synthErrorWire env c.id w.serial (errName "ServiceUnknown") (cstr "no such activatable service")
    else
      match b.beginActivation env target with
      | none => b.synthErrorWire env c.id w.serial (errName "Spawn.Failed") (cstr "fork failed")
      | some (acts, i) =>
        { b with acts := actsHold acts i (startRequest c.id w.serial) }

def privileged (env : Env) (c : Conn) : Bool :=
  c.creds.uid = 0 || c.creds.uid = env.uid

def monitorRequest (env : Env) (c : Conn) (call : DriverCall) : Except (Bytes × Bytes) MatchSet :=
  if privileged env c = false then .error (errName "AccessDenied", cstr "BecomeMonitor not permitted")
  else
    match call.args with
    | .strv rv :: .u32 0 :: _ =>
      if rv.length > maxMatchRules then .error (errName "LimitsExceeded", cstr "too many match rules")
      else
        match rv.foldlM matchAdd [] with
        | none => .error (errName "MatchRuleInvalid", cstr "invalid match rule")
        | some rules => .ok rules
    | _ => .error (errName "InvalidArgs", cstr "BecomeMonitor expects (as rules, u 0)")

def monitorAnswer (env : Env) (b : Broker) (c : Conn) (w : WireMsg) (raw : Bytes) : Broker × Option MatchSet :=
  match env.lib.demarshal raw with
  | none => (b.synthErrorWire env c.id w.serial (errName "Failed") (cstr "cannot parse message"), none)
  | some call =>
    match monitorRequest env c call with
    | .error (name, text) => (b.replyError env c.id call name text, none)
    | .ok rules => (b.reply env c.id call [], some rules)

/-- The names of a connection go: its registry entries first, then the
announcements. -/
def dropNames (env : Env) (b : Broker) (id : ConnId) : Broker :=
  let uniq := b.uniqueOf id
  let (names, ts) := b.names.disconnect id
  let b := { b with names := names }.modConn id (fun c => { c with unique := none })
  let b := b.broadcastTransitions env ts
  match uniq with
  | none => b
  | some u => b.broadcastUniqueGone env u id

/-- `NameLost` for a monitor's own unique name, by which it learns that it is one. -/
def ownNameLost (env : Env) (b : Broker) (id : ConnId) : Broker :=
  match b.uniqueOf id with
  | none => b
  | some u => b.enqueueSignal env id (cstr "NameLost") [.str u]

def turnMonitor (env : Env) (b : Broker) (id : ConnId) (rules : MatchSet) : Broker :=
  let b := (b.ownNameLost env id).dropNames env id
  let b := b.modConn id (fun c => { c with rules := none, monRules := some rules, isMonitor := true })
  { b with nmonitors := b.nmonitors + 1 }

def becomeMonitor (env : Env) (b : Broker) (c : Conn) (w : WireMsg) (raw : Bytes) (nfds : Nat) : Broker :=
  match b.monitorAnswer env c w raw with
  | (b, none) => b.finishMessage c.id nfds false
  | (b, some rules) => (b.finishMessage c.id nfds false).turnMonitor env c.id rules

/-- The loop over the entries of an `a{ss}`; it stops at the first bad one. -/
def envSetAll : List Bytes → List (Bytes × Bytes) → List Bytes × Bool
  | env, [] => (env, true)
  | env, (k, v) :: rest =>
    match activateEnvSet env k v with
    | none => (env, false)
    | some env => envSetAll env rest

def newEnvironment (actenv : List Bytes) (call : DriverCall) : List Bytes × Bool :=
  match call.args with
  | .dict l :: _ => if call.signature = cstr "a\x7bss\x7d" then envSetAll actenv l else (actenv, false)
  | _ => (actenv, false)

def updateEnvironment (env : Env) (b : Broker) (c : Conn) (call : DriverCall) : Broker :=
  let (actenv, ok) := newEnvironment b.actenv call
  let b := { b with actenv := actenv }
  if ok then b.reply env c.id call []
  else b.replyError env c.id call (errName "InvalidArgs") (cstr "expected a\x7bss\x7d of valid names")

def reloadConfig (env : Env) (b : Broker) (c : Conn) (w : WireMsg) (call : DriverCall) : Broker :=
  if privileged env c = false then
    b.replyError env c.id call (errName "AccessDenied") (cstr "ReloadConfig not permitted")
  else if b.draining then
    b.synthErrorWire env c.id w.serial (errName "Failed") (cstr "Message bus is restarting")
  else b.reloadRequest env (some { connId := c.id, serial := w.serial })

def configCall (env : Env) (b : Broker) (c : Conn) (w : WireMsg) (raw : Bytes) : Broker :=
  match env.lib.demarshal raw with
  | none => b.synthErrorWire env c.id w.serial (errName "Failed") (cstr "cannot parse message")
  | some call =>
    if w.member = some (cstr "ReloadConfig") then b.reloadConfig env c w call
    else if b.systemBus then
      b.replyError env c.id call (errName "AccessDenied")
        (cstr "Cannot change activation environment on a system bus.")
    else if privileged env c = false then
      b.replyError env c.id call (errName "AccessDenied") (cstr "UpdateActivationEnvironment not permitted")
    else b.updateEnvironment env c call

def driverCall (env : Env) (b : Broker) (c : Conn) (w : WireMsg) (raw : Bytes) : Broker :=
  match env.lib.demarshal raw with
  | none => b.synthErrorWire env c.id w.serial (errName "Failed") (cstr "cannot parse message")
  | some call =>
    match b.driverDispatch env c call with
    | (b, true) => b
    | (b, false) => b.synthErrorWire env c.id w.serial (errName "UnknownMethod") (cstr "unknown method")

def handleDriver (env : Env) (b : Broker) (c : Conn) (w : WireMsg) (raw : Bytes) (nfds : Nat) : Broker :=
  if w.member = some (cstr "StartServiceByName") then
    (b.startServiceByName env c w raw).finishMessage c.id nfds false
  else if w.member = some (cstr "BecomeMonitor") then b.becomeMonitor env c w raw nfds
  else if w.member = some (cstr "ReloadConfig") ∨ w.member = some (cstr "UpdateActivationEnvironment") then
    (b.configCall env c w raw).finishMessage c.id nfds false
  else (b.driverCall env c w raw).finishMessage c.id nfds false

/-! ## Routed messages -/

def handleRouted (env : Env) (b : Broker) (c : Conn) (u : Bytes) (w : WireMsg) (raw : Bytes) (nfds : Nat) : Broker :=
  let r := routeTargets w c b.names b.conns b.policy b.replies env.now
  let b := { b with replies := r.replies }
  if r.denied then b.refuse env c.id w nfds "AccessDenied" "rejected by policy"
  else if r.synthError then
    match b.activateOrHold env c w raw nfds with
    | (b, true) => b.finishMessage c.id nfds false
    | (b, false) => b.refuse env c.id w nfds "ServiceUnknown" "name has no owner"
  else
    let fds := c.pendingFds.take nfds
    -- the descriptors are handed on if the first target is there to take them
    let transferred := decide (0 < nfds) &&
      ((r.targets.head?.bind b.conn?).any (fun dst => !dst.isMonitor))
    (b.relayAll (fun dst => !dst.isMonitor) (sdbusWireReforward raw w u) nfds fds r.targets).finishMessage
      c.id nfds transferred

def handleMessage (env : Env) (b : Broker) (id : ConnId) (w : WireMsg) (raw : Bytes) : Broker :=
  match b.conn? id with
  | none => b
  | some c =>
    let n := sdbusWireNFds w
    if n < 0 ∨ n > c.pendingFds.length then
      ((b.synthErrorWire env id w.serial (errName "InvalidArgs") (cstr "unix_fds count mismatch")).dropPending
        id).drainScratch id
    else
      let nfds := n.toNat
      if c.isMonitor then b.consumeMsgFds id nfds false
      else
        let b := b.monitorInbound c w raw nfds
        if toDriver w then b.handleDriver env c w raw nfds
        else
          match c.unique with
          | none => b.refuse env id w nfds "AccessDenied" "Hello required first"
          | some u =>
            if wireForwardable env.lib raw w = false then
              b.refuse env id w nfds "InvalidArgs" "malformed message"
            else b.handleRouted env c u w raw nfds

end Broker

end SchemaInit.Dbus
