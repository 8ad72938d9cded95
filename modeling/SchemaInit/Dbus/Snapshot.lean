/-
# `SchemaInit.Dbus.Snapshot` — the state a broker hands to the next (`sdbus_state.h`)

On a planned restart the broker writes its connections, its name registry and its
pending replies into a memory file, and the next one reads them back.  The file
holds 32-bit little-endian integers; a string is its length and its bytes.

A connection is filled in field by field in the source; here its slot holds a
blank record until the last check of its round has passed.

The records have the types of the source: an id read from a file may be any `int`,
and flags any 32 bits.  Memory does not run out.
-/
import SchemaInit.Dbus.Conn
import SchemaInit.Dbus.Wire
import SchemaInit.Lib.Scan

namespace SchemaInit.Dbus

open Scan
open Scanner (bind map pure)

def stateMagic : Nat := 0x53444253
def stateVersion : Nat := 1
def stateMaxBytes : Nat := 64 * 1024 * 1024
def maxGids : Nat := 64
def intMax : Nat := 2 ^ 31 - 1

/-! ## What is saved -/

structure SavedConn where
  fd : Int
  id : Int
  authed : Bool
  authOk : Bool
  saidHello : Bool
  negotiatedFd : Bool
  sawNul : Bool
  uid : Nat
  gid : Nat
  pid : Int
  gids : List Int
  unique : Option Bytes
  inBuf : Bytes
  pendingFds : List Int
  oq : List OutChunk
  isMonitor : Bool
  rules : Option MatchSet
  monRules : Option MatchSet
  deriving DecidableEq

def SavedConn.blank (fd : Int) : SavedConn where
  fd := fd
  id := 0
  authed := false
  authOk := false
  saidHello := false
  negotiatedFd := false
  sawNul := false
  uid := 0
  gid := 0
  pid := 0
  gids := []
  unique := none
  inBuf := []
  pendingFds := []
  oq := []
  isMonitor := false
  rules := none
  monRules := none

structure SavedName where
  name : Bytes
  holders : List (Int × Nat)
  deriving DecidableEq

structure SavedNames where
  names : List SavedName
  uniques : List (Int × Bytes)
  nextUnique : Nat
  deriving DecidableEq

def SavedNames.new : SavedNames := { names := [], uniques := [], nextUnique := 1 }

def SavedNames.unique (r : SavedNames) (id : Int) : Option Bytes :=
  (r.uniques.find? (fun u => u.1 = id)).map Prod.snd

structure SavedReply where
  callee : Int
  caller : Int
  serial : Nat
  live : Bool
  deadline : Int
  deriving DecidableEq

structure StateHdr where
  nextId : Nat
  nextUnique : Nat
  driverSerial : Nat

structure BusState where
  nextId : Nat
  driverSerial : Nat
  conns : List SavedConn
  names : SavedNames
  replies : List SavedReply

/-! ## Writing -/

def swU32 (n : Nat) : Bytes :=
  [UInt8.ofNat n, UInt8.ofNat (n / 2 ^ 8), UInt8.ofNat (n / 2 ^ 16), UInt8.ofNat (n / 2 ^ 24)]

def swI32 (v : Int) : Bytes :=
  swU32 (v % 2 ^ 32).toNat

def swBlob (b : Bytes) : Bytes :=
  swU32 b.length ++ b

def swStr (s : Option Bytes) : Bytes :=
  swBlob (s.getD [])

def swMatches (m : Option MatchSet) : Bytes :=
  swU32 (m.getD []).length ++ (m.getD []).flatMap (fun r => swBlob r.raw)

def SavedConn.flagWord (c : SavedConn) : Nat :=
  (if c.authed then 1 else 0) + (if c.authOk then 2 else 0) + (if c.saidHello then 4 else 0) +
    (if c.negotiatedFd then 8 else 0) + (if c.sawNul then 16 else 0)

def swConn (c : SavedConn) : Bytes :=
  swI32 c.id ++ (swU32 c.flagWord ++ (swU32 c.uid ++ (swU32 c.gid ++ (swI32 c.pid ++ (swU32 c.gids.length ++
    (c.gids.flatMap swI32 ++ (swStr c.unique ++ (swBlob c.inBuf ++ (swU32 c.pendingFds.length ++
      (swU32 (if c.isMonitor then 1 else 0) ++ (swMatches c.rules ++ swMatches c.monRules)))))))))))

def swHolder (h : Int × Nat) : Bytes :=
  swI32 h.1 ++ swU32 h.2

def swName (e : SavedName) : Bytes :=
  swBlob e.name ++ (swU32 e.holders.length ++ e.holders.flatMap swHolder)

def SavedReply.left (r : SavedReply) (now : Int) : Nat :=
  (r.deadline - now).toNat

def swReply (now : Int) (r : SavedReply) : Bytes :=
  swI32 r.callee ++ (swI32 r.caller ++ (swU32 r.serial ++ swU32 (r.left now)))

/-- What ends up in the file. -/
def stateWrite (now : Int) (s : BusState) : Bytes :=
  let live := s.replies.filter SavedReply.live
  swU32 stateMagic ++ (swU32 stateVersion ++ (swU32 s.nextId ++ (swU32 s.names.nextUnique ++ (swU32 s.driverSerial ++
    (swU32 s.conns.length ++ (s.conns.flatMap swConn ++
      (swU32 s.names.names.length ++ (s.names.names.flatMap swName ++
        (swU32 live.length ++ live.flatMap (swReply now))))))))))

/-! ## Reading: the cursor -/

def cString (b : Bytes) : Bytes :=
  b.takeWhile (· ≠ 0)

def srU32 : Scanner UInt8 Nat :=
  map (fun w => (w.map (fun w => rdU32 w 0 true)).getD 0) (Cursor.get 4)

def srI32 : Scanner UInt8 Int :=
  map asInt32 srU32

def srStr : Scanner UInt8 (Option Bytes) :=
  bind srU32 fun n => map (Option.map cString) (Cursor.get n)

def srRules : Nat → MatchSet → Scanner UInt8 (Option MatchSet)
  | 0, m => pure (some m)
  | n + 1, m =>
    bind srStr fun raw =>
      match raw.bind (matchAdd m) with
      | none => fun c => (none, c.fail)
      | some m => srRules n m

def srMatchesOf (n : Nat) : Scanner UInt8 (Option MatchSet) := fun c =>
  if c.bad ∨ n > c.left then (none, c.fail)
  else if n = 0 then (none, c)
  else srRules n [] c

def srMatches : Scanner UInt8 (Option MatchSet) :=
  bind srU32 srMatchesOf

structure ConnHead where
  id : Int
  fl : Nat
  uid : Nat
  gid : Nat
  pid : Int
  ng : Nat

def srConnHead : Scanner UInt8 ConnHead :=
  bind srI32 fun id => bind srU32 fun fl => bind srU32 fun uid =>
    bind srU32 fun gid => bind srI32 fun pid => bind srU32 fun ng =>
      pure { id := id, fl := fl, uid := uid, gid := gid, pid := pid, ng := ng }

def srIdentity (ng : Nat) : Scanner UInt8 (List Int × Option Bytes) :=
  bind (Scanner.times srI32 ng) fun gids => bind srStr fun uq => pure (gids, uq)

def srTail : Scanner UInt8 (Nat × Option MatchSet × Option MatchSet) :=
  bind srU32 fun mon => bind srMatches fun rules => bind srMatches fun monRules =>
    pure (mon, rules, monRules)

def srHolder : Scanner UInt8 (Int × Nat) :=
  bind srI32 fun cid => bind srU32 fun f => pure (cid, f)

def srReply (now : Int) : Scanner UInt8 SavedReply :=
  bind srI32 fun callee => bind srI32 fun caller => bind srU32 fun serial =>
    bind srU32 fun left =>
      pure { callee := callee, caller := caller, serial := serial, live := true, deadline := now + left }

/-! ## Reading: the state -/

def SavedNames.intern (r : SavedNames) (name : Bytes) : SavedNames :=
  if r.names.any (fun e => e.name = name) then r
  else { r with names := r.names ++ [{ name := name, holders := [] }] }

def SavedNames.addHolder (r : SavedNames) (name : Bytes) (h : Int × Nat) : SavedNames :=
  { r with names := KeyedList.update SavedName.name name (fun e => { e with holders := e.holders ++ [h] }) r.names }

def SavedNames.addUnique (r : SavedNames) (id : Int) (u : Bytes) : SavedNames :=
  { r with uniques := r.uniques ++ [(id, u)] }

/-- What `sdbus_state_read` builds up, the caller's header and slots among it. -/
structure Built where
  hdr : StateHdr
  slots : List (Option SavedConn)
  built : Nat
  usedPfds : Nat
  sn : SavedNames
  rents : List SavedReply

structure Reading extends Built where
  cur : Cursor UInt8

def Built.start (hdr : StateHdr) (slots : List (Option SavedConn)) : Built where
  hdr := hdr
  slots := slots
  built := 0
  usedPfds := 0
  sn := SavedNames.new
  rents := []

/-- Where control is after a part of the function: behind it, or at `out`. -/
inductive Flow where
  | go (s : Reading)
  | out (rc : Int) (s : Reading)

def Flow.andThen : Flow → (Reading → Flow) → Flow
  | .go s, f => f s
  | .out rc s, _ => .out rc s

def Flow.loop (f : Reading → Flow) : Nat → Reading → Flow
  | 0, s => .go s
  | n + 1, s => (f s).andThen (Flow.loop f n)

def Reading.read {α : Type} (s : Reading) (f : Scanner UInt8 α) (k : α → Reading → Flow) : Flow :=
  k (f s.cur).1 { s with cur := (f s.cur).2 }

def readHeader (maxconns nconnFds : Nat) (s : Reading) : Flow :=
  s.read srU32 fun magic s =>
  if magic ≠ stateMagic then .out (-1) s
  else s.read srU32 fun version s =>
  if version ≠ stateVersion then .out (if s.cur.bad then -1 else -2) s
  else s.read srU32 fun nextId s =>
  s.read srU32 fun nextUnique s =>
  s.read srU32 fun driverSerial s =>
  let s := { s with hdr := { nextId := nextId, nextUnique := nextUnique, driverSerial := driverSerial } }
  s.read srU32 fun nc s =>
  if s.cur.bad ∨ nc > maxconns ∨ nc ≠ nconnFds then .out (-1) s else .go s

def connOf (head : ConnHead) (gids : List Int) (uq inBuf : Bytes) (mon : Nat) (rules monRules : Option MatchSet) :
    SavedConn where
  fd := 0
  id := head.id
  authed := head.fl.testBit 0
  authOk := head.fl.testBit 1
  saidHello := head.fl.testBit 2
  negotiatedFd := head.fl.testBit 3
  sawNul := head.fl.testBit 4
  uid := head.uid
  gid := head.gid
  pid := head.pid
  gids := gids
  unique := if uq = [] then none else some uq
  inBuf := inBuf
  pendingFds := []
  oq := []
  isMonitor := mon.testBit 0
  rules := rules
  monRules := monRules

def readRest (pfds : List Int) (fd : Int) (head : ConnHead) (gids : List Int) (uq : Bytes) (s : Reading) : Flow :=
  let s := { s with sn := if uq = [] then s.sn else s.sn.addUnique head.id uq }
  s.read srU32 fun inl s =>
  if s.cur.bad ∨ inl > s.cur.left ∨ inl > intMax then .out (-1) s
  else s.read (Cursor.get inl) fun buf s =>
  s.read srU32 fun np s =>
  if s.cur.bad ∨ np > maxPendingFds ∨ np > pfds.length - s.usedPfds then .out (-1) s
  else
  let pending := (pfds.drop s.usedPfds).take np
  let s := { s with usedPfds := s.usedPfds + np }
  s.read srTail fun t s =>
  if s.cur.bad then .out (-1) s
  else
  let c := connOf head gids uq (buf.getD []) t.1 t.2.1 t.2.2
  .go { s with slots := s.slots.set (s.built - 1) (some { c with fd := fd, pendingFds := pending }) }

def readFields (pfds : List Int) (fd : Int) (s : Reading) : Flow :=
  s.read srConnHead fun head s =>
  if s.cur.bad ∨ head.ng > maxGids then .out (-1) s
  else s.read (srIdentity head.ng) fun ident s =>
  match ident.2 with
  | none => .out (-1) s
  | some uq => readRest pfds fd head ident.1 uq s

def readConn (pfds : List Int) (fd : Int) (s : Reading) : Flow :=
  readFields pfds fd { s with slots := s.slots.set s.built (some (SavedConn.blank fd)), built := s.built + 1 }

def readConns (pfds : List Int) : List Int → Reading → Flow
  | [], s => .go s
  | fd :: fds, s => (readConn pfds fd s).andThen (readConns pfds fds)

def readHolder (name : Bytes) (s : Reading) : Flow :=
  s.read srHolder fun h s =>
  if s.cur.bad then .out (-1) s else .go { s with sn := s.sn.addHolder name h }

def readCount (k : Nat → Reading → Flow) (s : Reading) : Flow :=
  s.read srU32 fun n s =>
  if s.cur.bad ∨ n > s.cur.left then .out (-1) s else k n s

def readName (s : Reading) : Flow :=
  s.read srStr fun nm s =>
  match nm with
  | none => .out (-1) s
  | some nm =>
  let s := { s with sn := s.sn.intern nm }
  readCount (Flow.loop (readHolder nm)) s

def readReply (now : Int) (s : Reading) : Flow :=
  s.read (srReply now) fun e s =>
  if s.cur.bad then .out (-1) s else .go { s with rents := s.rents ++ [e] }

def readEnd (npfds : Nat) (s : Reading) : Flow :=
  if s.usedPfds ≠ npfds then .out (-1) s else .go s

def readBody (maxconns : Nat) (connFds pfds : List Int) (now : Int) (s : Reading) : Flow :=
  (readHeader maxconns connFds.length s).andThen fun s =>
  (readConns pfds connFds s).andThen fun s =>
  (readCount (Flow.loop readName) s).andThen fun s =>
  (readCount (Flow.loop (readReply now)) s).andThen fun s =>
  readEnd pfds.length s

/-- `sdbus__state_drop`: the slots are emptied; what `sdbus_conn_free_fields` closes is
the descriptors still queued. -/
def stateDrop (slots : List (Option SavedConn)) (n : Nat) : List (Option SavedConn) × List Int :=
  (List.replicate (min n slots.length) none ++ slots.drop n,
    (slots.take n).flatMap (fun c =>
      match c with
      | none => []
      | some c => c.oq.flatMap OutChunk.fds))

/-- What `sdbus_state_read` leaves behind.  The last three are history: the number of slots
it filled, the descriptors it closed, and the end of the furthest byte of the file that
it read. -/
structure ReadResult where
  rc : Int
  nconns : Nat
  hdr : StateHdr
  slots : List (Option SavedConn)
  names : SavedNames
  replies : List SavedReply
  built : Nat
  closed : List Int
  reach : Nat

def ReadResult.refused (hdr : StateHdr) (slots : List (Option SavedConn)) (names : SavedNames)
    (replies : List SavedReply) : ReadResult where
  rc := -1
  nconns := 0
  hdr := hdr
  slots := slots
  names := names
  replies := replies
  built := 0
  closed := []
  reach := 0

/-- `sdbus_state_read`: a cursor over the file whose flag is looked at now and then, connections
built in the caller's slots as they are read, the registry and the replies in copies of their own,
all of it dropped at `out` unless the end was reached.  `file` is what the descriptor gives, `none`
if `fstat` or `pread` fails. -/
def stateRead (file : Option Bytes) (maxconns : Nat) (connFds pfds : List Int) (now : Int) (hdr : StateHdr)
    (slots : List (Option SavedConn)) (names : SavedNames) (replies : List SavedReply) : ReadResult :=
  match file with
  | none => .refused hdr slots names replies
  | some bytes =>
    if bytes.length > stateMaxBytes then .refused hdr slots names replies
    else if names.names ≠ [] ∨ names.uniques ≠ [] then .refused hdr slots names replies
    else
      match readBody maxconns connFds pfds now ⟨Built.start hdr slots, Cursor.good bytes 0⟩ with
      | .go s =>
        { rc := 0, nconns := connFds.length, hdr := s.hdr, slots := s.slots
          names := { s.sn with nextUnique := s.hdr.nextUnique }, replies := replies ++ s.rents, built := s.built
          closed := []
          reach := s.cur.reach }
      | .out rc s =>
        let (slots, closed) := stateDrop s.slots s.built
        { rc := rc, nconns := 0, hdr := s.hdr, slots := slots, names := names, replies := replies, built := s.built
          closed := closed
          reach := s.cur.reach }

end SchemaInit.Dbus
