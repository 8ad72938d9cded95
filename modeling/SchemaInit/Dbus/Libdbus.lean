/-
# `SchemaInit.Dbus.Libdbus` — the codec the broker links (`sdbus_codec.h`)

libdbus is not part of the repository.  The broker uses it to marshal its own
messages, to read the arguments of calls addressed to the bus driver, and to
check names and bodies before it forwards a message.  What is ours on top of it,
`sdbus_wire_forwardable`, is modelled from the source.
-/
import SchemaInit.Dbus.Wire

namespace SchemaInit.Dbus

def driverName : Bytes := cstr "org.freedesktop.DBus"
def driverPath : Bytes := cstr "/org/freedesktop/DBus"
def peerInterface : Bytes := cstr "org.freedesktop.DBus.Peer"

def errName (s : String) : Bytes := cstr ("org.freedesktop.DBus.Error." ++ s)

inductive Arg where
  | str (s : Bytes)
  | u32 (n : Nat)
  | bool (b : Bool)
  | strv (l : List Bytes)
  /-- `a{ss}` -/
  | dict (l : List (Bytes × Bytes))
  /-- the `a{sv}` of `GetConnectionCredentials` -/
  | creds (uid : Nat) (pid : Int) (gids : List Int)
  /-- the variant of one driver property -/
  | prop (name : Bytes)
  /-- the `a{sv}` of these driver properties -/
  | props (names : List Bytes)
  /-- the string `sdbus__driver_introspect_xml` -/
  | introspection
  | other
  deriving DecidableEq

inductive OutKind where
  | methodReturn
  | error (name : Bytes)
  | signal (path interface member : Bytes)
  deriving DecidableEq

/-- A message the broker builds. -/
structure OutMsg where
  kind : OutKind
  serial : Nat
  replySerial : Option Nat
  destination : Option Bytes
  args : List Arg

structure DriverCall where
  serial : Nat
  /-- what the caller put into the message, if anything -/
  sender : Option Bytes
  member : Option Bytes
  interface : Option Bytes
  signature : Bytes
  args : List Arg

/-- What libdbus offers, as parameters. -/
structure Libdbus where
  /-- `dbus_message_marshal`; the sender is always the driver -/
  marshal : OutMsg → Option Bytes
  /-- `dbus_message_demarshal` of exactly these bytes -/
  demarshal : Bytes → Option DriverCall
  validPath : Bytes → Bool
  validInterface : Bytes → Bool
  validMember : Bytes → Bool
  validErrorName : Bytes → Bool
  validBusName : Bytes → Bool
  machineId : Option Bytes

def okOrAbsent (valid : Bytes → Bool) : Option Bytes → Bool
  | none => true
  | some s => valid s

def requiredMembers (w : WireMsg) : Bool :=
  if w.type = typeMethodCall ∨ w.type = typeSignal then w.path.isSome && w.member.isSome
  else if w.type = typeError then w.errorName.isSome && w.replySerial.isSome
  else if w.type = typeMethodReturn then w.replySerial.isSome
  else false

def wireForwardable (L : Libdbus) (buf : Bytes) (w : WireMsg) : Bool :=
  okOrAbsent L.validPath w.path && okOrAbsent L.validInterface w.interface &&
    okOrAbsent L.validMember w.member && okOrAbsent L.validErrorName w.errorName &&
    okOrAbsent L.validBusName w.destination && requiredMembers w &&
    (decide (0 < sdbusWireNFds w) || (L.demarshal buf).isSome)

end SchemaInit.Dbus
