/-
# `SchemaInit.Dbus.Conn` — one connection of the broker (`sdbus_conn.h`)

A connection holds its credentials, the bytes and descriptors received but not
yet handled, and the ordered queue of outbound messages.  The array behind the
queue (`oq`, `oq_head`, `n_oq`, `oq_cap`) is the list of chunks not yet sent.

`enqueue` refuses a message when the unsent backlog would pass the cap: it
flags the connection for removal, and the descriptors that came with the
message are the caller's to close.  Queued bytes are counted with the size of
the chunk record, which is 88 bytes where pointers have 8.
-/
import SchemaInit.Dbus.Match
import SchemaInit.Dbus.Names

namespace SchemaInit.Dbus

def maxPendingFds : Nat := 16
def maxMatchRules : Nat := 512
def maxConnPerUid : Nat := 256
def maxOutgoingBytes : Nat := 16 * 1024 * 1024
def sizeofOutchunk : Nat := 88
def maxConnPending : Nat := maxOutgoingBytes - sizeofOutchunk

structure OutChunk where
  b : Bytes
  off : Nat
  fds : List Int
  deriving DecidableEq

structure Creds where
  uid : Nat
  gid : Nat
  pid : Int
  gids : List Int
  deriving DecidableEq

structure Conn where
  fd : Int
  id : ConnId
  authed : Bool
  authOk : Bool
  saidHello : Bool
  negotiatedFd : Bool
  sawNul : Bool
  creds : Creds
  unique : Option Bytes
  inBuf : Bytes
  inOver : Bool
  out : Bytes
  pendingFds : List Int
  oq : List OutChunk
  oqBytes : Int
  oqOver : Bool
  /-- `matches` -/
  rules : Option MatchSet
  isMonitor : Bool
  monRules : Option MatchSet

def Conn.new (fd : Int) (id : ConnId) (creds : Creds) : Conn where
  fd := fd
  id := id
  authed := false
  authOk := false
  saidHello := false
  negotiatedFd := false
  sawNul := false
  creds := creds
  unique := none
  inBuf := []
  inOver := false
  out := []
  pendingFds := []
  oq := []
  oqBytes := 0
  oqOver := false
  rules := none
  isMonitor := false
  monRules := none

def Conn.overflows (c : Conn) (len : Nat) : Bool :=
  decide (c.oqBytes + len + sizeofOutchunk > maxOutgoingBytes)

/-- `sdbus_conn_enqueue`, apart from closing the descriptors of a refused message. -/
def Conn.enqueue (c : Conn) (b : Bytes) (fds : List Int) : Conn :=
  if c.overflows b.length then { c with oqOver := true }
  else
    { c with
      oq := c.oq ++ [{ b := b, off := 0, fds := fds.take maxPendingFds }]
      oqBytes := c.oqBytes + b.length + sizeofOutchunk }

def Conn.hasOut (c : Conn) : Bool :=
  c.oq ≠ []

def Conn.outAppend (c : Conn) (data : Bytes) : Conn :=
  { c with out := c.out ++ data }

def Conn.inAppend (c : Conn) (data : Bytes) : Conn :=
  if c.inBuf.length + data.length > maxConnPending then { c with inOver := true }
  else { c with inBuf := c.inBuf ++ data }

def Conn.inConsume (c : Conn) (n : Nat) : Conn :=
  { c with inBuf := c.inBuf.drop n }

inductive SendResult where
  /-- so many bytes were taken -/
  | sent (n : Nat)
  /-- `EAGAIN` -/
  | again
  | broken

/-- `flush_conn` on the connection's own data, with the answers of its `sendmsg`
calls: the connection, the descriptors it closes, and whether it still works.
The kernel takes no more bytes than it is offered; past the last answer it
would block. -/
def Conn.flush : List SendResult → Conn → List Int → Conn × List Int × Bool
  | answers, c, closed =>
    match c.oq, answers with
    | [], _ => ({ c with oqBytes := 0 }, closed, true)
    | _ :: _, [] => (c, closed, true)
    | _ :: _, .again :: _ => (c, closed, true)
    | _ :: _, .broken :: _ => (c, closed, false)
    | chunk :: rest, .sent n :: answers =>
      let n := min n (chunk.b.length - chunk.off)
      -- the descriptors go with the first bytes
      let closed := if chunk.off = 0 then closed ++ chunk.fds else closed
      let fds := if chunk.off = 0 then [] else chunk.fds
      if chunk.off + n ≥ chunk.b.length then
        Conn.flush answers { c with oq := rest, oqBytes := c.oqBytes - n - sizeofOutchunk } closed
      else
        ({ c with oq := { chunk with off := chunk.off + n, fds := fds } :: rest,
                  oqBytes := c.oqBytes - n }, closed, true)

/-! ## Lemmas about the queue -/

def OutChunk.weight (k : OutChunk) : Nat :=
  k.b.length - k.off + sizeofOutchunk

def Conn.Counted (c : Conn) : Prop :=
  c.oqBytes = ((c.oq.map OutChunk.weight).sum : Nat)

theorem Conn.counted_new (fd : Int) (id : ConnId) (creds : Creds) : (Conn.new fd id creds).Counted := rfl

theorem Conn.enqueue_of_overflows {c : Conn} {b : Bytes} {fds : List Int} (h : c.overflows b.length = true) :
    c.enqueue b fds = { c with oqOver := true } := by
  simp [Conn.enqueue, h]

theorem Conn.enqueue_of_not_overflows {c : Conn} {b : Bytes} {fds : List Int}
    (h : c.overflows b.length = false) : c.enqueue b fds = { c with
        oq := c.oq ++ [{ b := b, off := 0, fds := fds.take maxPendingFds }]
        oqBytes := c.oqBytes + b.length + sizeofOutchunk } := by
  simp [Conn.enqueue, h]

theorem Conn.inAppend_of_le {c : Conn} {data : Bytes} (h : c.inBuf.length + data.length ≤ maxConnPending) :
    c.inAppend data = { c with inBuf := c.inBuf ++ data } :=
  if_neg (not_lt.mpr h)

theorem Conn.Counted.enqueue {c : Conn} (h : c.Counted) (b : Bytes) (fds : List Int) : (c.enqueue b fds).Counted := by
  cases hover : c.overflows b.length with
  | true => rw [Conn.enqueue_of_overflows hover]; exact h
  | false =>
    rw [Conn.enqueue_of_not_overflows hover]
    simp only [Conn.Counted] at h
    simp [Conn.Counted, OutChunk.weight, h, add_assoc]

theorem Conn.Counted.flush {c : Conn} (h : c.Counted) (answers : List SendResult) (closed : List Int) :
    (Conn.flush answers c closed).1.Counted := by
  induction answers generalizing c closed with
  | nil =>
    unfold Conn.flush
    cases hq : c.oq with
    | nil => simp [Conn.Counted]
    | cons chunk rest => exact h
  | cons a answers ih =>
    unfold Conn.flush
    cases hq : c.oq with
    | nil => simp [Conn.Counted]
    | cons chunk rest =>
      cases a with
      | again => exact h
      | broken => exact h
      | sent n =>
        have hsum : c.oqBytes = (chunk.weight : Int) + ((rest.map OutChunk.weight).sum : Nat) := by
          simpa [Conn.Counted, hq] using h
        simp only [OutChunk.weight] at hsum
        dsimp only
        split
        · apply ih
          simp only [Conn.Counted]
          omega
        · simp only [Conn.Counted, List.map_cons, List.sum_cons, OutChunk.weight]
          omega

end SchemaInit.Dbus
