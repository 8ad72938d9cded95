/-
# `SchemaInit.Dbus.Activate` — activatable services and held messages (`sdbus_activate.h`)

The table of activatable services, the activations under way with the messages
held for each, and the environment handed to activated services.  A held
message is an ordinary call captured with its bytes and descriptors, or a
`StartServiceByName` call that only wants an answer.
-/
import SchemaInit.Dbus.Names

namespace SchemaInit.Dbus

structure SvcEnt where
  name : Bytes
  argv : List Bytes
  user : Bytes
  systemdService : Bool
  dir : Bytes
  deriving DecidableEq

def svctabFind (t : List SvcEnt) (name : Bytes) : Option SvcEnt :=
  t.find? (fun e => e.name = name)

inductive HeldKind where
  | implicit | explicit
  deriving DecidableEq

structure HeldMsg where
  bytes : Bytes
  fds : List Int
  callerId : ConnId
  serial : Nat
  expectsReply : Bool
  kind : HeldKind
  deriving DecidableEq

structure PendingAct where
  name : Bytes
  childPid : Int
  deadlineMs : Int
  held : List HeldMsg

abbrev Acts := List PendingAct

def actsFind (a : Acts) (name : Bytes) : Option Nat :=
  a.findIdx? (fun e => e.name = name)

def actsByPid (a : Acts) (pid : Int) : Option Nat :=
  a.findIdx? (fun e => e.childPid = pid)

def actsBegin (a : Acts) (name : Bytes) (pid deadline : Int) : Acts :=
  a ++ [{ name := name, childPid := pid, deadlineMs := deadline, held := [] }]

/-- `sdbus_acts_hold` on the entry at `i`: the bytes and the descriptor
*numbers* are copied. -/
def actsHold (a : Acts) (i : Nat) (m : HeldMsg) : Acts :=
  a.modify i (fun e => { e with held := e.held ++ [m] })

def actsPop (a : Acts) (i : Nat) : Acts × List HeldMsg :=
  (KeyedList.swapRemove a i, (a[i]?.map PendingAct.held).getD [])

def actsTake (a : Acts) (name : Bytes) : Option (Acts × List HeldMsg) :=
  (actsFind a name).map (actsPop a)

def actsReapExpired (a : Acts) (now : Int) : Option (Acts × List HeldMsg) :=
  (a.findIdx? (fun e => decide (e.deadlineMs ≤ now))).map (actsPop a)

def activateEnvSet (env : List Bytes) (key val : Bytes) : Option (List Bytes) :=
  if key = [] ∨ key.contains (ch '=') then none
  else
    let kv := key ++ [ch '='] ++ val
    match env.findIdx? (fun e => startsWith (key ++ [ch '=']) e) with
    | some i => some (env.set i kv)
    | none => some (env ++ [kv])

end SchemaInit.Dbus
