/-
# `SchemaInit.Dbus.Policy` — the policy engine (`sdbus_policy.h`)

The running policy as the parser leaves it, and its evaluation: contexts in the
order default, group, user, mandatory, the last matching rule decides, and the
start is a denial.  A requested reply is allowed without a look at the rules.
The parser and the resolution of user and group names are not modelled here; a
policy is whatever list of contexts they produce.
-/
import SchemaInit.Lib.CStr

namespace SchemaInit.Dbus

inductive ReqOp where
  | send | own | receive
  deriving DecidableEq

structure PolicyReq where
  op : ReqOp
  uid : Int
  gids : List Int
  interface : Option Bytes := none
  member : Option Bytes := none
  msgtype : Option Bytes := none
  path : Option Bytes := none
  destination : Option Bytes := none
  destNames : List Bytes := []
  name : Option Bytes := none
  hasReplySerial : Bool := false
  senderName : Option Bytes := none
  senderNames : List Bytes := []

structure Pred where
  attr : Bytes
  value : Bytes
  deriving DecidableEq

structure Rule where
  allow : Bool
  preds : List Pred
  deriving DecidableEq

inductive CtxKind where
  | default | mandatory | user | group
  deriving DecidableEq

structure Ctx where
  kind : CtxKind
  selector : Option Int
  rules : List Rule
  deriving DecidableEq

structure Policy where
  ctxs : List Ctx
  hasRecvRule : Bool
  deriving DecidableEq

def star : Bytes := cstr "*"

def fieldMatches (field : Option Bytes) (value : Bytes) : Bool :=
  if value = star then field.isSome else field = some value

/-- Set membership over a peer's owned names, with one fallback when it owns none. -/
def namesMatch (names : List Bytes) (fallback : Option Bytes) (value : Bytes) : Bool :=
  if value = star then names ≠ [] || fallback.isSome
  else names.contains value || (names = [] && fallback = some value)

def predMatches (p : Pred) (req : PolicyReq) : Bool :=
  if p.attr = cstr "user" ∨ p.attr = cstr "group" then p.value = star
  else if p.attr = cstr "own" then
    req.op = .own && (p.value = star || p.value = req.name.getD [])
  else if p.attr = cstr "own_prefix" then
    req.op = .own && startsWith p.value (req.name.getD [])
  else if p.attr = cstr "send_destination" then
    req.op = .send && namesMatch req.destNames req.destination p.value
  else if p.attr = cstr "send_interface" then req.op = .send && fieldMatches req.interface p.value
  else if p.attr = cstr "send_member" then req.op = .send && fieldMatches req.member p.value
  else if p.attr = cstr "send_type" then req.op = .send && fieldMatches req.msgtype p.value
  else if p.attr = cstr "send_path" then req.op = .send && fieldMatches req.path p.value
  else if p.attr = cstr "receive_sender" then
    req.op = .receive && namesMatch req.senderNames req.senderName p.value
  else if p.attr = cstr "receive_interface" then req.op = .receive && fieldMatches req.interface p.value
  else if p.attr = cstr "receive_member" then req.op = .receive && fieldMatches req.member p.value
  else if p.attr = cstr "receive_type" then req.op = .receive && fieldMatches req.msgtype p.value
  else if p.attr = cstr "receive_path" then req.op = .receive && fieldMatches req.path p.value
  else false

def ruleMatches (r : Rule) (req : PolicyReq) : Bool :=
  r.preds.all (fun p => predMatches p req)

def applicable (c : Ctx) (req : PolicyReq) : Bool :=
  match c.kind with
  | .default | .mandatory => true
  | .user =>
    decide (0 ≤ req.uid) &&
      (match c.selector with
       | none => true
       | some id => id = req.uid)
  | .group =>
    req.gids ≠ [] &&
      (match c.selector with
       | none => true
       | some id => req.gids.contains id)

def isRequestedReply (req : PolicyReq) : Bool :=
  req.op = .send && req.hasReplySerial &&
    (req.msgtype = some (cstr "method_return") || req.msgtype = some (cstr "error"))

def orderedRules (pol : Policy) (req : PolicyReq) : List Rule :=
  [CtxKind.default, .group, .user, .mandatory].flatMap (fun k =>
    (pol.ctxs.filter (fun c => c.kind = k && applicable c req)).flatMap Ctx.rules)

def policyEval (pol : Policy) (req : PolicyReq) : Bool :=
  if isRequestedReply req then true
  else (orderedRules pol req).foldl (fun verdict r => if ruleMatches r req then r.allow else verdict) false

/-- The policy `SDBUS_NO_POLICY_FILE_DEFAULT` parses to: everything is allowed. -/
def defaultPolicy : Policy where
  ctxs :=
    [{ kind := .default, selector := none,
       rules :=
        [{ allow := true, preds := [{ attr := cstr "send_destination", value := star }] },
         { allow := true, preds := [{ attr := cstr "send_type", value := cstr "signal" }] },
         { allow := true, preds := [{ attr := cstr "own", value := star }] }] }]
  hasRecvRule := false

end SchemaInit.Dbus
