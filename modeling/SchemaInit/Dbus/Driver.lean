/-
# `SchemaInit.Dbus.Driver` — the bus driver's methods (`sdbus_driver.h`)

A call to `org.freedesktop.DBus` changes the registry or the caller's match
rules and is answered into the caller's scratch buffer.  The calls that touch
more of the broker (`StartServiceByName`, `BecomeMonitor`, `ReloadConfig`,
`UpdateActivationEnvironment`) are taken out before.
-/
import SchemaInit.Dbus.Deliver

namespace SchemaInit.Dbus

inductive Member where
  | ping | getMachineId | hello | getId | requestName | releaseName | nameHasOwner | getNameOwner | listNames
  | listActivatableNames | listQueuedOwners | addMatch | removeMatch | getConnectionUnixUser
  | getConnectionUnixProcessID | getConnectionCredentials
  deriving DecidableEq

def Member.text : Member → String
  | .ping => "Ping"
  | .getMachineId => "GetMachineId"
  | .hello => "Hello"
  | .getId => "GetId"
  | .requestName => "RequestName"
  | .releaseName => "ReleaseName"
  | .nameHasOwner => "NameHasOwner"
  | .getNameOwner => "GetNameOwner"
  | .listNames => "ListNames"
  | .listActivatableNames => "ListActivatableNames"
  | .listQueuedOwners => "ListQueuedOwners"
  | .addMatch => "AddMatch"
  | .removeMatch => "RemoveMatch"
  | .getConnectionUnixUser => "GetConnectionUnixUser"
  | .getConnectionUnixProcessID => "GetConnectionUnixProcessID"
  | .getConnectionCredentials => "GetConnectionCredentials"

def Member.all : List Member :=
  [.ping, .getMachineId, .hello, .getId, .requestName, .releaseName, .nameHasOwner, .getNameOwner, .listNames,
    .listActivatableNames, .listQueuedOwners, .addMatch, .removeMatch, .getConnectionUnixUser,
    .getConnectionUnixProcessID, .getConnectionCredentials]

def Member.ofBytes (s : Bytes) : Option Member :=
  Member.all.find? (fun m => cstr m.text = s)

theorem Member.text_of_ofBytes {s : Bytes} {m : Member} (h : Member.ofBytes s = some m) : s = cstr m.text := by
  have := List.find?_some h
  exact (of_decide_eq_true this).symm

variable (env : Env)

namespace Broker

/-! ## Answers -/

/-- `sdbus__driver_emit`.  An answer that has no unique name to go to keeps the
sender the call gave. -/
def driverEmit (b : Broker) (id : ConnId) (call : DriverCall) (kind : OutKind) (args : List Arg) :
    Broker :=
  let serial := (b.driverSerial + 1) % 2 ^ 32
  let b := { b with driverSerial := serial }
  match env.lib.marshal
      { kind := kind, serial := serial, replySerial := some call.serial,
        destination := match b.uniqueOf id with
          | some u => some u
          | none => call.sender
        args := args } with
  | none => b
  | some bytes => b.modConn id (fun c => c.outAppend bytes)

/-- `sdbus__reply_uint32`, `_string`, `_bool`, `_strv`, `_empty`, `_credentials`. -/
def reply (b : Broker) (id : ConnId) (call : DriverCall) (args : List Arg) : Broker :=
  b.driverEmit env id call .methodReturn args

def replyError (b : Broker) (id : ConnId) (call : DriverCall) (name : Bytes) (text : Bytes) : Broker :=
  b.driverEmit env id call (.error name) [.str text]

def invalidArgs (b : Broker) (id : ConnId) (call : DriverCall) (text : String) : Broker :=
  b.replyError env id call (errName "InvalidArgs") (cstr text)

/-! ## Methods -/

def driverProperties (b : Broker) (id : ConnId) (call : DriverCall) (member : Bytes) : Broker × Bool :=
  let ours := fun pif : Bytes => pif = [] ∨ pif = driverName
  let known := fun prop : Bytes => prop = cstr "Features" ∨ prop = cstr "Interfaces"
  if member = cstr "GetAll" then
    match call.args with
    | .str pif :: _ =>
      (b.reply env id call
        [.props (if ours pif then [cstr "Features", cstr "Interfaces"] else [])], true)
    | _ => (b.invalidArgs env id call "GetAll args", true)
  else if member = cstr "Get" ∨ member = cstr "Set" then
    match call.args with
    | .str pif :: .str prop :: _ =>
      if ¬ (ours pif ∧ known prop) then
        (b.replyError env id call (errName "UnknownProperty") (cstr "no such property"), true)
      else if member = cstr "Set" then
        (b.replyError env id call (errName "PropertyReadOnly") (cstr "property is read-only"), true)
      else (b.reply env id call [.prop prop], true)
    | _ => (b.invalidArgs env id call "Get/Set args", true)
  else (b, false)

def hello (b : Broker) (id : ConnId) (call : DriverCall) : Broker :=
  match b.conn? id with
  | none => b
  | some c =>
    match c.unique with
    | some u => (b.modConn id (fun c => { c with saidHello := true })).reply env id call [.str u]
    | none =>
      let (names, u) := b.names.allocUnique id
      ({ b with names := names }.modConn id
        (fun c => { c with unique := some u, saidHello := true })).reply env id call [.str u]

def ownRequest (c : Conn) (name : Bytes) : PolicyReq :=
  { op := .own, uid := asInt32 c.creds.uid, gids := c.creds.gids, name := some name }

def requestName (b : Broker) (c : Conn) (call : DriverCall) (name : Bytes) (flags : Nat) : Broker :=
  if name.head? = some (ch ':') ∨ name = driverName then
    b.invalidArgs env c.id call "cannot own a unique name or the bus name"
  else if policyEval b.policy (ownRequest c name) = false then
    b.replyError env c.id call (errName "AccessDenied") (cstr "not allowed to own this name by security policy")
  else if b.names.holds c.id name = false ∧ b.names.countHeld c.id ≥ maxNamesPerConn then
    b.replyError env c.id call (errName "LimitsExceeded") (cstr "max names per connection exceeded")
  else
    let (names, rc, ts) := b.names.request c.id name (ReqFlags.ofNat flags)
    ({ b with names := names }.broadcastTransitions env ts).reply env c.id call [.u32 rc.code]

def releaseName (b : Broker) (c : Conn) (call : DriverCall) (name : Bytes) : Broker :=
  let (names, rc, ts) := b.names.release c.id name
  ({ b with names := names }.broadcastTransitions env ts).reply env c.id call [.u32 rc.code]

def getNameOwner (b : Broker) (id : ConnId) (call : DriverCall) (name : Bytes) : Broker :=
  if name = driverName then b.reply env id call [.str driverName]
  else
    match routeResolve b.names b.conns (some name) with
    | none => b.replyError env id call (errName "NameHasNoOwner") (cstr "no owner")
    | some oid => b.reply env id call [.str ((b.uniqueOf oid).getD name)]

def listNames (b : Broker) : List Bytes :=
  driverName :: b.conns.filterMap Conn.unique ++ b.names.list

def listQueuedOwners (b : Broker) (id : ConnId) (call : DriverCall) (name : Bytes) : Broker :=
  if name = driverName then b.reply env id call [.strv [driverName]]
  else if name.head? = some (ch ':') then
    match routeResolve b.names b.conns (some name) with
    | none => b.replyError env id call (errName "NameHasNoOwner") (cstr "no owner")
    | some _ => b.reply env id call [.strv [name]]
  else
    match ((b.names.find name).map NameEnt.holders).getD [] with
    | [] => b.replyError env id call (errName "NameHasNoOwner") (cstr "no owner")
    | holders => b.reply env id call [.strv (holders.filterMap (fun h => b.names.unique h.connId))]

def setRules (b : Broker) (id : ConnId) (rules : MatchSet) : Broker :=
  b.modConn id (fun c => { c with rules := some rules })

def addMatch (b : Broker) (c : Conn) (call : DriverCall) (rule : Bytes) : Broker :=
  -- the set is made before the rule is looked at
  let rules := c.rules.getD []
  if rules.length ≥ maxMatchRules then
    (b.setRules c.id rules).replyError env c.id call (errName "LimitsExceeded") (cstr "too many match rules")
  else
    match matchAdd rules rule with
    | none => (b.setRules c.id rules).replyError env c.id call (errName "MatchRuleInvalid") (cstr "invalid match rule")
    | some rules => (b.setRules c.id rules).reply env c.id call []

def removeMatch (b : Broker) (c : Conn) (call : DriverCall) (rule : Bytes) : Broker :=
  match c.rules.bind (fun m => matchRemove m rule) with
  | none => b.replyError env c.id call (errName "MatchRuleNotFound") (cstr "no such match rule")
  | some rules => (b.setRules c.id rules).reply env c.id call []

def ownerCall (b : Broker) (id : ConnId) (call : DriverCall) (answer : Conn → Arg) : Broker :=
  match call.args with
  | .str name :: _ =>
    match (routeResolve b.names b.conns (some name)).bind b.conn? with
    | none => b.replyError env id call (errName "NameHasNoOwner") (cstr "no owner")
    | some o => b.reply env id call [answer o]
  | _ => b.invalidArgs env id call "args"

def withName (b : Broker) (id : ConnId) (call : DriverCall) (text : String)
    (f : Bytes → Broker) : Broker :=
  match call.args with
  | .str name :: _ => f name
  | _ => b.invalidArgs env id call text

/-- What a member of `org.freedesktop.DBus` or `org.freedesktop.DBus.Peer` does. -/
def driverMember (b : Broker) (c : Conn) (call : DriverCall) : Member → Broker
  | .ping => b.reply env c.id call []
  | .getMachineId | .getId => b.reply env c.id call [.str (env.lib.machineId.getD [])]
  | .hello => b.hello env c.id call
  | .requestName =>
    match call.args with
    | .str name :: .u32 flags :: _ => b.requestName env c call name flags
    | _ => b.invalidArgs env c.id call "RequestName args"
  | .releaseName => b.withName env c.id call "ReleaseName args" (b.releaseName env c call)
  | .nameHasOwner =>
    b.withName env c.id call "NameHasOwner args" (fun name =>
      b.reply env c.id call
        [.bool (name = driverName ∨ (routeResolve b.names b.conns (some name)).isSome)])
  | .getNameOwner => b.withName env c.id call "GetNameOwner args" (b.getNameOwner env c.id call)
  | .listNames => b.reply env c.id call [.strv b.listNames]
  | .listActivatableNames => b.reply env c.id call [.strv (driverName :: b.svctab.map SvcEnt.name)]
  | .listQueuedOwners => b.withName env c.id call "ListQueuedOwners args" (b.listQueuedOwners env c.id call)
  | .addMatch => b.withName env c.id call "AddMatch args" (b.addMatch env c call)
  | .removeMatch => b.withName env c.id call "RemoveMatch args" (b.removeMatch env c call)
  | .getConnectionUnixUser => b.ownerCall env c.id call (fun o => .u32 o.creds.uid)
  | .getConnectionUnixProcessID => b.ownerCall env c.id call (fun o => .u32 (o.creds.pid % 2 ^ 32).toNat)
  | .getConnectionCredentials => b.ownerCall env c.id call (fun o => .creds o.creds.uid o.creds.pid o.creds.gids)

/-- Follows the order of the source's tests; the second result says whether the member is known. -/
def driverDispatch (b : Broker) (c : Conn) (call : DriverCall) : Broker × Bool :=
  match call.member with
  | none => (b, false)
  | some member =>
    if member = cstr "Introspect" ∧
        (call.interface = none ∨ call.interface = some (cstr "org.freedesktop.DBus.Introspectable")) then
      (b.reply env c.id call [.introspection], true)
    else if call.interface = some (cstr "org.freedesktop.DBus.Properties") then
      b.driverProperties env c.id call member
    else
      match Member.ofBytes member with
      | none => (b, false)
      | some m => (b.driverMember env c call m, true)

end Broker

end SchemaInit.Dbus
