/-
# `SchemaInit.Dbus.Names` — the name registry (`sdbus_names.h`)

Connections are ids.  A well-known name has a list of holders: the first is its
primary owner, the rest wait.  A name entry stays in the registry when its last
holder leaves, so the entries are a list that only grows.  `-1` for "no
connection" is `none`.
-/
import SchemaInit.Lib.CStr
import SchemaInit.Lib.KeyedList

namespace SchemaInit.Dbus

/-- Counted up from 1 and never used again; the source's `int` does not come round here. -/
abbrev ConnId := Nat

/-- The request flags, `SDBUS_REQ_ALLOW_REPLACEMENT`, `_REPLACE_EXISTING`, `_DO_NOT_QUEUE`. -/
structure ReqFlags where
  allowReplacement : Bool
  replaceExisting : Bool
  doNotQueue : Bool
  deriving DecidableEq

def ReqFlags.ofNat (n : Nat) : ReqFlags where
  allowReplacement := n % 2 = 1
  replaceExisting := n / 2 % 2 = 1
  doNotQueue := n / 4 % 2 = 1

def maxNamesPerConn : Nat := 512

inductive ReqResult where
  | primaryOwner | inQueue | exists_ | alreadyOwner
  deriving DecidableEq

def ReqResult.code : ReqResult → Nat
  | .primaryOwner => 1
  | .inQueue => 2
  | .exists_ => 3
  | .alreadyOwner => 4

inductive RelResult where
  | released | nonExistent | notOwner

def RelResult.code : RelResult → Nat
  | .released => 1
  | .nonExistent => 2
  | .notOwner => 3

/-- A change of a primary owner, which the broker turns into a `NameOwnerChanged` signal. -/
structure Transition where
  name : Bytes
  oldOwner : Option ConnId
  newOwner : Option ConnId

structure Holder where
  connId : ConnId
  flags : ReqFlags
  deriving DecidableEq

structure NameEnt where
  name : Bytes
  holders : List Holder
  deriving DecidableEq

def NameEnt.owner (e : NameEnt) : Option ConnId :=
  e.holders.head?.map Holder.connId

structure UniqueEnt where
  connId : ConnId
  unique : Bytes
  deriving DecidableEq

structure Names where
  names : List NameEnt
  uniques : List UniqueEnt
  nextUnique : Nat

def Names.new : Names := { names := [], uniques := [], nextUnique := 1 }

def Names.find (r : Names) (name : Bytes) : Option NameEnt :=
  KeyedList.lookup NameEnt.name name r.names

def Names.intern (r : Names) (name : Bytes) : Names :=
  match r.find name with
  | some _ => r
  | none => { r with names := r.names ++ [{ name := name, holders := [] }] }

/-- The entry with this name gets these holders; interning keeps names distinct. -/
def Names.setHolders (r : Names) (name : Bytes) (holders : List Holder) : Names :=
  { r with names := KeyedList.update NameEnt.name name (fun e => { e with holders := holders }) r.names }

def holderIndex (holders : List Holder) (c : ConnId) : Option Nat :=
  holders.findIdx? (fun h => h.connId = c)

def uniqueText (n : Nat) : Bytes :=
  cstr (":1." ++ toString (n % 2 ^ 32))

def Names.allocUnique (r : Names) (c : ConnId) : Names × Bytes :=
  let u := uniqueText r.nextUnique
  ({ r with uniques := r.uniques ++ [{ connId := c, unique := u }], nextUnique := r.nextUnique + 1 }, u)

def Names.owner (r : Names) (name : Bytes) : Option ConnId :=
  (r.find name).bind NameEnt.owner

def requestHolders (holders : List Holder) (c : ConnId) (flags : ReqFlags) :
    List Holder × ReqResult × Bool :=
  match holders with
  | [] => ([{ connId := c, flags := flags }], .primaryOwner, true)
  | owner :: queue =>
    match holderIndex holders c with
    | some 0 => ({ owner with flags := flags } :: queue, .alreadyOwner, false)
    | some i => (holders.modify i (fun h => { h with flags := flags }), .inQueue, false)
    | none =>
      if flags.replaceExisting ∧ owner.flags.allowReplacement then
        -- the old owner is queued unless it said DO_NOT_QUEUE
        if owner.flags.doNotQueue then ({ connId := c, flags := flags } :: queue, .primaryOwner, true)
        else ({ connId := c, flags := flags } :: holders, .primaryOwner, true)
      else if flags.doNotQueue then (holders, .exists_, false)
      else (holders ++ [{ connId := c, flags := flags }], .inQueue, false)

def Names.request (r : Names) (c : ConnId) (name : Bytes) (flags : ReqFlags) :
    Names × ReqResult × List Transition :=
  let r := r.intern name
  let holders := ((r.find name).map NameEnt.holders).getD []
  let (holders', result, changed) := requestHolders holders c flags
  (r.setHolders name holders', result,
    if changed then [{ name := name, oldOwner := holders.head?.map Holder.connId, newOwner := some c }] else [])

def Names.release (r : Names) (c : ConnId) (name : Bytes) : Names × RelResult × List Transition :=
  match r.find name with
  | none => (r, .nonExistent, [])
  | some e =>
    if e.holders = [] then (r, .nonExistent, [])
    else
      match holderIndex e.holders c with
      | none => (r, .notOwner, [])
      | some i =>
        let rest := e.holders.eraseIdx i
        (r.setHolders name rest, .released,
          if i = 0 then
            [{ name := name, oldOwner := some c, newOwner := rest.head?.map Holder.connId }]
          else [])

def disconnectEnt (c : ConnId) (e : NameEnt) : NameEnt × Option Transition :=
  match holderIndex e.holders c with
  | none => (e, none)
  | some i =>
    let rest := e.holders.eraseIdx i
    ({ e with holders := rest },
      if i = 0 then some { name := e.name, oldOwner := some c, newOwner := rest.head?.map Holder.connId }
      else none)

def dropUnique (c : ConnId) (uniques : List UniqueEnt) : List UniqueEnt :=
  KeyedList.swapOut UniqueEnt.connId c uniques

def Names.disconnect (r : Names) (c : ConnId) : Names × List Transition :=
  ({ r with
      names := r.names.map (fun e => (disconnectEnt c e).1)
      uniques := dropUnique c r.uniques },
    r.names.filterMap (fun e => (disconnectEnt c e).2))

def Names.list (r : Names) : List Bytes :=
  (r.names.filter (fun e => e.holders ≠ [])).map NameEnt.name

def Names.ownedBy (r : Names) (c : ConnId) : List Bytes :=
  (r.names.filter (fun e => e.owner = some c)).map NameEnt.name

def Names.holds (r : Names) (c : ConnId) (name : Bytes) : Bool :=
  match r.find name with
  | none => false
  | some e => e.holders.any (fun h => h.connId = c)

def Names.countHeld (r : Names) (c : ConnId) : Nat :=
  r.names.countP (fun e => e.holders.any (fun h => h.connId = c))

def Names.unique (r : Names) (c : ConnId) : Option Bytes :=
  (r.uniques.find? (fun u => u.connId = c)).map UniqueEnt.unique

end SchemaInit.Dbus
