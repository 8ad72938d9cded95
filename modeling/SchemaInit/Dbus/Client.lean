/-
# `SchemaInit.Dbus.Client` — what clients write

A client's messages in the broker's own format, and short sessions made of them.
The runs that show what the broker does on particular inputs are built from
these.
-/
import SchemaInit.Dbus.System

namespace SchemaInit.Dbus

/-! ## Messages -/

def WireMsg.blank (type serial : Nat) : WireMsg :=
  { endianLe := true, type := type, flags := 0, serial := serial, replySerial := none, path := none,
    interface := none, member := none, errorName := none, destination := none, sender := none,
    signature := none, arg0 := none, unixFds := none, bodyOffset := 0, bodyLen := 0, totalLen := 0 }

/-- The bytes of a message, from the broker's own field writers. -/
def wireBytes (sender : Option Bytes) (m : WireMsg) (body : Bytes) : Bytes :=
  let w := wOpt (fun w => wStrField true w 1 'o') [] m.path
  let w := wOpt (fun w => wStrField true w 2 's') w m.interface
  let w := wOpt (fun w => wStrField true w 3 's') w m.member
  let w := wOpt (fun w => wStrField true w 4 's') w m.errorName
  let w := wOpt (fun w => wU32Field true w 5) w m.replySerial
  let w := wOpt (fun w => wStrField true w 6 's') w m.destination
  let w := wOpt (fun w => wStrField true w 7 's') w sender
  let w := wOpt (fun w => wStrField true w 8 'g') w m.signature
  let w := wOpt (fun w => wU32Field true w 9) w m.unixFds
  let fixed := [ch 'l', UInt8.ofNat m.type, UInt8.ofNat m.flags, 1] ++ u32Bytes true body.length ++
    u32Bytes true m.serial
  wAlign (fixed ++ u32Bytes true w.length ++ w) 8 ++ body

/-- A client leaves the sender to the broker. -/
def clientBytes : WireMsg → Bytes → Bytes := wireBytes none

def methodCall (dest member : String) (serial : Nat) : WireMsg :=
  { WireMsg.blank typeMethodCall serial with
    path := some (cstr "/"), interface := some (cstr "a.b"), member := some (cstr member),
    destination := some (cstr dest) }

def fdCall (dest : String) (n : Nat) : WireMsg :=
  { methodCall dest "Take" 7 with unixFds := some n }

def methodReturn (dest : String) (serial replySerial : Nat) : WireMsg :=
  { WireMsg.blank typeMethodReturn serial with
    replySerial := some replySerial, destination := some (cstr dest) }

def driverBytes (member arg : String) : Bytes :=
  clientBytes
    { methodCall "org.freedesktop.DBus" member 1 with
      interface := some driverName, signature := some (cstr "s") }
    (u32Bytes true (cstr arg).length ++ cstr arg ++ [0])

/-! ## Sessions -/

def stubCall (w : WireMsg) : DriverCall where
  serial := w.serial
  sender := none
  member := w.member
  interface := w.interface
  signature := w.signature.getD []
  args := (w.arg0.map Arg.str).toList ++ [.u32 0]

def stubOut (m : OutMsg) : WireMsg :=
  let w := { WireMsg.blank typeMethodReturn m.serial with
    replySerial := m.replySerial, destination := m.destination }
  match m.kind with
  | .methodReturn => w
  | .error name => { w with type := typeError, errorName := some name }
  | .signal path interface member =>
    { w with type := typeSignal, path := some path, interface := some interface, member := some member }

/-- Stands for libdbus: it takes every name for valid and reads a call's arguments off the header
parser, a string and the flags 0.  It writes the header of a message and no body. -/
def stubLib : Libdbus where
  marshal := fun m => some (wireBytes (some driverName) (stubOut m) [])
  demarshal := fun buf =>
    match sdbusWireParse buf with
    | .complete w => some (stubCall w)
    | _ => none
  validPath := fun _ => true
  validInterface := fun _ => true
  validMember := fun _ => true
  validErrorName := fun _ => true
  validBusName := fun _ => true
  machineId := none

def stubEnv : Env where
  lib := stubLib
  now := 0
  uid := 0
  guid := cstr "0123"
  spawn := some 100
  reportSent := fun _ _ => true
  scan := []
  policyTmp := true
  dissolver := none
  reloadTimeoutMs := 30000

def stubConfig : Config where
  policy := defaultPolicy
  svctab := []
  systemBus := false
  actenv := []
  dissolves := false
  overrideDir := []
  table := FdTable.empty 64
  nextFile := 0

def sends (id : ConnId) (bytes : Bytes) (nfds : Nat) : List Input :=
  [⟨stubEnv, .receive id bytes nfds⟩, ⟨stubEnv, .deliver id⟩]

def connects (id : ConnId) : List Input :=
  [⟨stubEnv, .accept ⟨0, 0, 1, []⟩⟩, ⟨stubEnv, .receive id ([0] ++ cstr "AUTH EXTERNAL 30\r\nBEGIN\r\n") 0⟩]

def joins (id : ConnId) : List Input :=
  connects id ++ sends id (driverBytes "Hello" "") 0

def hangsUp (id : ConnId) : List Input :=
  [⟨stubEnv, .hangup id⟩]

def serviceConfig : Config :=
  { stubConfig with
    svctab := [{ name := cstr "a.b", argv := [cstr "/bin/ab"], user := [], systemdService := false, dir := [] }] }

theorem reachable_foldl (k : Config) (is : List Input) : Reachable k (is.foldl step (Broker.start k)) := by
  refine Run.AllOk.reaches ?_
  generalize Broker.start k = b
  induction is generalizing b with
  | nil => trivial
  | cons i is ih => exact ⟨trivial, ih _⟩

def busAfter (is : List Input) : Broker :=
  is.foldl step (Broker.start stubConfig)

theorem reachable_busAfter (is : List Input) : Reachable stubConfig (busAfter is) :=
  reachable_foldl stubConfig is

example : (busAfter (joins 1)).conns.map Conn.unique = [some (cstr ":1.1")] := by
  decide +kernel

end SchemaInit.Dbus
