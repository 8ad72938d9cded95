/-
# `SchemaInit.Dbus.Reload` — the live configuration reload (`sdbus_reload.h`, `schema-dbus.c`)

A reload builds a new activation table and, on the system bus, has a child
dissolve the bus configuration into a new policy.  Policy and table are swapped
together or not at all.  A request that comes while a reload runs is covered by
one more reload after it.

The files behind it (the temporary policy file, the boot cache) and the log are
left out: what they contribute to the broker's state comes in through `Env` and
the events.
-/
import SchemaInit.Dbus.Broker

namespace SchemaInit.Dbus

/-! ## May the new policy go live -/

structure NameOwner where
  name : Bytes
  uid : Int
  gids : List Int

def ruleCount (p : Policy) : Nat :=
  (p.ctxs.map (fun c => c.rules.length)).sum

def policyNamesOwn (p : Policy) (name : Bytes) : Bool :=
  p.ctxs.any (fun c => c.rules.any (fun r => r.preds.any (fun pr =>
    (pr.attr = cstr "own" && pr.value = name) || (pr.attr = cstr "own_prefix" && startsWith pr.value name))))

def ownDenied (p : Policy) (o : NameOwner) : Bool :=
  !policyEval p { op := .own, uid := o.uid, gids := o.gids, name := some o.name } && policyNamesOwn p o.name

def reloadPolicyOk (oldp newp : Policy) (owners : List NameOwner) : Option Bytes :=
  if ruleCount oldp > 0 ∧ ruleCount newp * 2 < ruleCount oldp then
    some (cstr s!"rules {ruleCount oldp} -> {ruleCount newp}")
  else
    (owners.find? (ownDenied newp)).map
      (fun o => (cstr "would deny own " ++ o.name ++ cstr s!" to uid {o.uid}").take 255)

def svctabHoldRaw (fresh old : List SvcEnt) (overrideDir : Bytes) : List SvcEnt :=
  fresh.filter (fun e => !(e.systemdService && e.dir ≠ overrideDir && (svctabFind old e.name).isNone))

/-! ## The reload -/

namespace Broker

def owners (b : Broker) : List NameOwner :=
  b.names.names.filterMap (fun e =>
    (e.owner.bind b.conn?).map (fun o => { name := e.name, uid := asInt32 o.creds.uid, gids := o.creds.gids }))

def reloadReplyOne (env : Env) (err : Option Bytes) (b : Broker) (w : Waiter) : Broker :=
  match b.conn? w.connId with
  | none => b
  | some _ =>
    match err with
    | some text => b.synthErrorWire env w.connId w.serial (errName "Failed") text
    | none => b.synthReturnWire env w.connId w.serial

def reloadReply (env : Env) (b : Broker) (ws : List Waiter) (err : Option Bytes) : Broker :=
  ws.foldl (reloadReplyOne env err) b

/-- `reload_start` up to the point where it waits for the dissolver (`none`) or
finishes at once, with an error or without. -/
def reloadBegin (env : Env) (b : Broker) : Broker × Option (Option Bytes) :=
  let tab := if b.systemBus then svctabHoldRaw env.scan b.svctab b.overrideDir else env.scan
  let b := { b with reload.running := true, reload.tab := tab }
  if b.systemBus = false ∨ b.dissolves = false then (b, some none)
  else if env.policyTmp = false then (b, some (some (cstr "cannot write the new policy")))
  else
    match env.dissolver with
    | none => (b, some (some (cstr "fork failed")))
    | some pid => ({ b with reload.pid := some pid, reload.deadline := env.now + env.reloadTimeoutMs }, none)

def reloadVerdict (b : Broker) (pol : Option Policy) (err : Option Bytes) : Option Bytes :=
  match err, pol with
  | some text, _ => some text
  | none, none => none
  | none, some p => reloadPolicyOk b.policy p b.owners

def reloadSwap (b : Broker) (pol : Option Policy) : Option Bytes → Broker
  | some _ => b
  | none => { b with policy := pol.getD b.policy, svctab := b.reload.tab }

def reloadSettle (env : Env) (b : Broker) (pol : Option Policy) (err : Option Bytes) : Broker :=
  let verdict := b.reloadVerdict pol err
  let b := b.reloadSwap pol verdict
  let b := { b with reload.tab := [] }
  let b := b.reloadReply env b.reload.run verdict
  { b with reload.run := [], reload.running := false }

/-- `reload_finish`.  A covered request starts the next reload, which may finish
at once; it is not dirty then, so `rounds` is 1 from outside. -/
def reloadFinish (env : Env) : Nat → Broker → Option Policy → Option Bytes → Broker
  | 0, b, pol, err => b.reloadSettle env pol err
  | rounds + 1, b, pol, err =>
    let b := b.reloadSettle env pol err
    if b.reload.dirty then
      let b := { b with reload.dirty := false, reload.run := b.reload.next, reload.next := [] }
      match b.reloadBegin env with
      | (b, none) => b
      | (b, some err) => reloadFinish env rounds b none err
    else b

def reloadStart (env : Env) (b : Broker) : Broker :=
  match b.reloadBegin env with
  | (b, none) => b
  | (b, some err) => reloadFinish env 1 b none err

def reloadRequest (env : Env) (b : Broker) (caller : Option Waiter) : Broker :=
  if b.reload.running then
    { b with reload.next := b.reload.next ++ caller.toList, reload.dirty := true }
  else { b with reload.run := b.reload.run ++ caller.toList }.reloadStart env

/-- `reload_reaped`, for the dissolver: its exit gave a policy, or an error. -/
def reloadReaped (env : Env) (b : Broker) (outcome : Except Bytes Policy) : Broker :=
  match b.reload.pid with
  | none => b
  | some _ =>
    let b := { b with reload.pid := none }
    match outcome with
    | .ok pol => reloadFinish env 1 b (some pol) none
    | .error text => reloadFinish env 1 b none (some text)

def reloadCheckTimeout (env : Env) (b : Broker) : Broker :=
  match b.reload.pid with
  | none => b
  | some _ =>
    if env.now ≥ b.reload.deadline then
      reloadFinish env 1 { b with reload.pid := none } none
        (some (cstr "dissolver timed out"))
    else b

def reloadAbort (env : Env) (b : Broker) : Broker :=
  let b := { b with reload.pid := none }
  let b := b.reloadReply env b.reload.run (some (cstr "Message bus is restarting"))
  let b := b.reloadReply env b.reload.next (some (cstr "Message bus is restarting"))
  { b with reload.run := [], reload.next := [] }

end Broker

end SchemaInit.Dbus
