/-
# `SchemaInit.Dbus.Reply` — the pending-reply table (`sdbus_reply.h`)

An entry says that `caller` awaits the answer of `callee` to the call with this
serial.  Dead entries stay in the table as slots to reuse.  Times are monotonic
milliseconds.
-/
import SchemaInit.Dbus.Names

namespace SchemaInit.Dbus

def replyTimeoutMs : Int := 120000

structure ReplyEnt where
  callee : ConnId
  caller : ConnId
  serial : Nat
  live : Bool
  deadline : Int
  deriving DecidableEq

abbrev Replies := List ReplyEnt

def repliesRecord (t : Replies) (callee : ConnId) (serial : Nat) (caller : ConnId) (now : Int) : Replies :=
  let e : ReplyEnt :=
    { callee := callee, caller := caller, serial := serial, live := true, deadline := now + replyTimeoutMs }
  match t.findIdx? (fun r => !r.live) with
  | some i => t.set i e
  | none => t ++ [e]

/-- An entry that `sdbus_replies_match` takes: `want` is the caller the reply's
destination resolved to, `none` if it did not resolve. -/
def ReplyEnt.answers (r : ReplyEnt) (sender : ConnId) (replySerial : Nat) (want : Option ConnId) : Bool :=
  r.live && r.callee = sender && r.serial = replySerial && (want.isNone || want = some r.caller)

def repliesMatch (t : Replies) (sender : ConnId) (replySerial : Nat) (want : Option ConnId) :
    Replies × Option ConnId :=
  match t.findIdx? (fun r => r.answers sender replySerial want) with
  | none => (t, none)
  | some i => (t.modify i (fun r => { r with live := false }), t[i]?.map ReplyEnt.caller)

def repliesPendingOn (t : Replies) (callee : ConnId) : List (ConnId × Nat) :=
  (t.filter (fun r => r.live && r.callee = callee && r.caller ≠ callee)).map (fun r => (r.caller, r.serial))

def repliesReapExpired (t : Replies) (now : Int) : Replies × List (ConnId × Nat) :=
  (t.map (fun r => if r.live ∧ r.deadline ≤ now then { r with live := false } else r),
    (t.filter (fun r => r.live ∧ r.deadline ≤ now)).map (fun r => (r.caller, r.serial)))

def repliesPurge (t : Replies) (c : ConnId) : Replies :=
  t.map (fun r => if r.live ∧ (r.caller = c ∨ r.callee = c) then { r with live := false } else r)

end SchemaInit.Dbus
