/-
# `SchemaInit.Dbus.Route` — where a message goes (`sdbus_route.h`)

The routing decision over a parsed header: a reply goes to the caller recorded
in the reply table, everything else is gated by the policy; a signal goes to
its destination or to everyone whose rules accept it, a call to the owner of
its destination.  A call that expects a reply leaves an entry in the table.
-/
import SchemaInit.Dbus.Conn
import SchemaInit.Dbus.Policy
import SchemaInit.Dbus.Reply
import SchemaInit.Dbus.Wire

namespace SchemaInit.Dbus

def maxTargets : Nat := 256

def typeStr (t : Nat) : Option Bytes :=
  if t = typeMethodCall then some (cstr "method_call")
  else if t = typeMethodReturn then some (cstr "method_return")
  else if t = typeError then some (cstr "error")
  else if t = typeSignal then some (cstr "signal")
  else none

/-- `sdbus__route_resolve`: a unique name of a live connection, or the primary
owner of a well-known name. -/
def routeResolve (names : Names) (all : List Conn) (dest : Option Bytes) : Option ConnId :=
  match dest with
  | none => none
  | some d =>
    match all.find? (fun c => c.unique = some d) with
    | some c => some c.id
    | none => names.owner d

/-- The policy lets `rcpt` receive the message. -/
def recvAllowed (pol : Policy) (msg : WireMsg) (snames : List Bytes) (senderUnique : Option Bytes)
    (rcpt : Conn) : Bool :=
  policyEval pol
    { op := .receive, uid := asInt32 rcpt.creds.uid, gids := rcpt.creds.gids, interface := msg.interface,
      member := msg.member, msgtype := typeStr msg.type, path := msg.path, senderNames := snames,
      senderName := senderUnique }

/-- What the policy is asked about the sender. -/
def sendRequest (msg : WireMsg) (sender : Conn) (destNames : List Bytes) : PolicyReq :=
  { op := .send, uid := asInt32 sender.creds.uid, gids := sender.creds.gids, interface := msg.interface,
    member := msg.member, msgtype := typeStr msg.type, path := msg.path, destination := msg.destination,
    destNames := destNames, hasReplySerial := msg.replySerial.isSome }

/-- The signal as match rules see it. -/
def signalView (names : Names) (msg : WireMsg) (sender : Conn) : MatchView :=
  { type := some (cstr "signal"), interface := msg.interface, member := msg.member, path := msg.path,
    arg0 := msg.arg0, sender := sender.unique, senderOwned := names.ownedBy sender.id, dest := none,
    destOwned := [] }

/-- A rule of `cc`, who is not the sender, accepts the signal, and the policy does too. -/
def subscribes (names : Names) (pol : Policy) (msg : WireMsg) (sender cc : Conn) : Bool :=
  cc.id ≠ sender.id &&
    (match cc.rules with
     | none => false
     | some m => matchSignal m (signalView names msg sender)) &&
    (!pol.hasRecvRule || recvAllowed pol msg (names.ownedBy sender.id) sender.unique cc)

/-- What `sdbus_route_targets` returns and writes through its pointers. -/
structure RouteResult where
  targets : List ConnId
  synthError : Bool
  denied : Bool
  replies : Replies

/-- The message is a reply: `method_return` or `error` with a `reply_serial`. -/
def WireMsg.isReply (m : WireMsg) : Bool :=
  (m.type = typeMethodReturn || m.type = typeError) && m.replySerial.isSome

/-- To the caller recorded in the reply table. -/
def routeReply (msg : WireMsg) (sender : Conn) (names : Names) (all : List Conn) (replies : Replies) :
    RouteResult :=
  let want := routeResolve names all msg.destination
  let (replies', caller) := repliesMatch replies sender.id (msg.replySerial.getD 0) want
  { targets := caller.toList, synthError := false, denied := false, replies := replies' }

/-- To its destination, or to everyone who subscribes. -/
def routeSignal (msg : WireMsg) (sender : Conn) (names : Names) (all : List Conn) (pol : Policy)
    (destOwner : Option ConnId) : List ConnId :=
  match msg.destination with
  | some _ =>
    match destOwner with
    | none => []
    | some owner =>
      if pol.hasRecvRule then
        match all.find? (fun c => c.id = owner) with
        | none => []
        | some rc => if recvAllowed pol msg (names.ownedBy sender.id) sender.unique rc then [owner] else []
      else [owner]
  | none => ((all.filter (subscribes names pol msg sender)).map Conn.id).take maxTargets

/-- `sdbus_route_targets` at time `now`, with room for `maxTargets` targets. -/
def routeTargets (msg : WireMsg) (sender : Conn) (names : Names) (all : List Conn) (pol : Policy)
    (replies : Replies) (now : Int) : RouteResult :=
  if msg.isReply then routeReply msg sender names all replies
  else
    let destOwner := routeResolve names all msg.destination
    let destNames := match destOwner with
      | none => []
      | some o => names.ownedBy o
    if policyEval pol (sendRequest msg sender destNames) = false then
      { targets := [], synthError := false, denied := true, replies := replies }
    else if msg.type = typeSignal then
      { targets := routeSignal msg sender names all pol destOwner, synthError := false, denied := false,
        replies := replies }
    else
      match destOwner with
      | none => { targets := [], synthError := true, denied := false, replies := replies }
      | some owner =>
        { targets := [owner], synthError := false, denied := false,
          replies :=
            if msg.type = typeMethodCall ∧ ¬ msg.noReply then
              repliesRecord replies owner msg.serial sender.id now
            else replies }

end SchemaInit.Dbus
