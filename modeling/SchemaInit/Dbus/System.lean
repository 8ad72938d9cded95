/-
# `SchemaInit.Dbus.System` — the broker as a state machine (`schema-dbus.c`)

Connections come and go, bytes and descriptors arrive, messages are handled one
by one, queues drain, children exit, deadlines pass.  Each of these is an event.

The main loop serves several of these in one round: `on_readable` receives and
then handles every message that is complete.  `onReadable_run` says that this is
a run of the finer steps, so what holds over every run of `step` holds for the
broker's rounds.
-/
import SchemaInit.Dbus.Auth
import SchemaInit.Dbus.Handle
import SchemaInit.Lib.Run

namespace SchemaInit.Dbus

def without (id : ConnId) (l : List Conn) : List Conn :=
  KeyedList.swapOut Conn.id id l

namespace Broker

/-! ## Connections -/

/-- The uid's connections are at their cap; root and unknown uids have none. -/
def uidFull (b : Broker) (uid : Nat) : Bool :=
  uid ≠ 0 && uid ≠ 2 ^ 32 - 1 && decide (b.conns.countP (fun c => c.creds.uid = uid) ≥ maxConnPerUid)

def addConn (b : Broker) (creds : Creds) : Broker :=
  let (b, fd) := b.openFd
  if fd < 0 then b
  else
    let id := b.nextId
    let b := { b with nextId := b.nextId + 1 }
    if b.uidFull creds.uid then b.closeFd fd
    else { b with conns := b.conns ++ [Conn.new fd id creds] }

def freeConn (b : Broker) (c : Conn) : Broker :=
  let b := ((b.closeFds c.pendingFds).closeFd c.fd).closeFds (c.oq.flatMap OutChunk.fds)
  { b with conns := without c.id b.conns }

def removeConn (env : Env) (b : Broker) (id : ConnId) : Broker :=
  match b.conn? id with
  | none => b
  | some c =>
    let b := if c.isMonitor then { b with nmonitors := b.nmonitors - 1 } else b
    let b := b.dropNames env id
    let b := (repliesPendingOn b.replies id).foldl
      (sendNoReplyTo env (cstr "Message recipient disconnected from message bus without replying")) b
    let b := { b with replies := repliesPurge b.replies id }
    match b.conn? id with
    | none => b
    | some c => b.freeConn c

/-! ## Input and output -/

def openFds (b : Broker) : Nat → Broker × List Int
  | 0 => (b, [])
  | n + 1 =>
    let (b, fd) := b.openFd
    let (b, fds) := b.openFds n
    (b, if fd < 0 then fds else fd :: fds)

/-- Received descriptors wait with the connection, as far as there is room. -/
def takeFds (b : Broker) (c : Conn) (nfds : Nat) : Broker :=
  let (b, fds) := b.openFds nfds
  let room := maxPendingFds - c.pendingFds.length
  (b.modConn c.id (fun c => { c with pendingFds := c.pendingFds ++ fds.take room })).closeFds (fds.drop room)

def takeBytes (env : Env) (b : Broker) (id : ConnId) (data : Bytes) : Broker :=
  match b.conn? id with
  | none => b
  | some c =>
    if c.authed then
      let b := b.modConn id (fun c => c.inAppend data)
      if (c.inAppend data).inOver then b.removeConn env id else b
    else
      let (c', result) := authFeed env.guid c data
      let b := (b.modConn id (fun _ => c')).drainScratch id
      if result = .refused then b.removeConn env id else b

def receive (env : Env) (b : Broker) (id : ConnId) (data : Bytes) (nfds : Nat) : Broker :=
  match b.conn? id with
  | none => b
  | some c => (b.takeFds c nfds).takeBytes env id (data.take 65536)

def deliver (env : Env) (b : Broker) (id : ConnId) : Broker :=
  match b.conn? id with
  | none => b
  | some c =>
    if c.authed = false then b
    else
      match sdbusWireParse c.inBuf with
      | .incomplete => b
      | .corrupt => (b.dropPending id).modConn id (fun c => { c with inBuf := [] })
      | .complete w =>
        (b.handleMessage env id w (c.inBuf.take w.totalLen)).modConn id (fun c => c.inConsume w.totalLen)

def processInbound (env : Env) (b : Broker) (id : ConnId) : Nat → Broker
  | 0 => b
  | fuel + 1 => processInbound env (b.deliver env id) id fuel

def onReadable (env : Env) (b : Broker) (id : ConnId) (data : Bytes) (nfds : Nat) : Broker :=
  let b := b.receive env id data nfds
  b.processInbound env id (((b.conn? id).map (fun c => c.inBuf.length)).getD 0)

def writable (env : Env) (b : Broker) (id : ConnId) (answers : List SendResult) : Broker :=
  match b.conn? id with
  | none => b
  | some c =>
    let (c', closed, works) := c.flush answers []
    let b := (b.modConn id (fun _ => c')).closeFds closed
    if works then b else b.removeConn env id

/-! ## Deadlines and children -/

def expireReplies (env : Env) (b : Broker) : Broker :=
  let (replies, dead) := repliesReapExpired b.replies env.now
  dead.foldl (sendNoReplyTo env (cstr "Did not receive a reply within the bus timeout")) { b with replies := replies }

def expireAct (env : Env) (b : Broker) : Broker :=
  match actsReapExpired b.acts env.now with
  | none => b
  | some (acts, held) =>
    { b with acts := acts }.failHeld env held (errName "TimedOut")
      (cstr "Activated service failed to acquire its name in time")

/-- An activated child exits; one that claimed its name is no longer waited for. -/
def childExit (env : Env) (b : Broker) (pid : Int) : Broker :=
  match (actsByPid b.acts pid).bind (fun i => b.acts[i]?) with
  | none => b
  | some pa =>
    match actsTake b.acts pa.name with
    | none => b
    | some (acts, held) =>
      { b with acts := acts }.failHeld env held (errName "Spawn.ChildExited")
        (cstr "Activated service exited before acquiring its name")

def sweep (env : Env) (b : Broker) : Broker :=
  match b.conns.find? Conn.oqOver with
  | none => b
  | some c => b.removeConn env c.id

/-- The loop of `report_flush`: it stops at the first report that is not sent. -/
def flushReports (env : Env) : Broker → List (Bytes × Int) → Broker
  | b, [] => { b with reports := [] }
  | b, r :: rs =>
    match b.reportSend env r.1 r.2 with
    | (b, true) => flushReports env b rs
    | (b, false) => { b with reports := r :: rs }

def reportFlush (env : Env) (b : Broker) : Broker :=
  b.flushReports env b.reports

def failFirst (env : Env) (b : Broker) : Broker :=
  { b with acts := (actsPop b.acts 0).1 }.failHeld env (actsPop b.acts 0).2 (errName "Spawn.Failed")
    (cstr "Message bus is restarting")

/-- `while (g_acts->n > 0)` of `store_and_exit` -/
def failActs (env : Env) (b : Broker) : Broker :=
  b.acts.length.repeat (failFirst env) b

end Broker

/-! ## Events -/

inductive Event where
  | accept (creds : Creds)
  | receive (id : ConnId) (data : Bytes) (nfds : Nat)
  | deliver (id : ConnId)
  | writable (id : ConnId) (answers : List SendResult)
  | hangup (id : ConnId)
  | expireReplies
  | expireAct
  | childExit (pid : Int)
  | sweep
  | reportFlush
  /-- `SIGHUP`, or a change of the watched files -/
  | reload
  | dissolved (outcome : Except Bytes Policy)
  | reloadTimeout
  /-- `SIGTERM` -/
  | terminate
  /-- what `store_and_exit` does before it drains the queues -/
  | abort

structure Input where
  env : Env
  event : Event

/-- What the broker does on an event, whatever the outside answers meanwhile. -/
def step (b : Broker) (i : Input) : Broker :=
  match i.event with
  | .accept creds => if b.draining then b else b.addConn creds
  | .receive id data nfds => if b.draining then b else b.receive i.env id data nfds
  | .deliver id => b.deliver i.env id
  | .writable id answers => b.writable i.env id answers
  | .hangup id => b.removeConn i.env id
  | .expireReplies => b.expireReplies i.env
  | .expireAct => b.expireAct i.env
  | .childExit pid => b.childExit i.env pid
  | .sweep => b.sweep i.env
  | .reportFlush => b.reportFlush i.env
  | .reload => if b.draining then b else b.reloadRequest i.env none
  | .dissolved outcome => b.reloadReaped i.env outcome
  | .reloadTimeout => b.reloadCheckTimeout i.env
  | .terminate => { b with draining := true }
  | .abort => if b.draining then (b.reloadAbort i.env).failActs i.env else b

structure Config where
  policy : Policy
  svctab : List SvcEnt
  systemBus : Bool
  actenv : List Bytes
  dissolves : Bool
  overrideDir : Bytes
  /-- the descriptors it has before the first connection -/
  table : FdTable Nat
  nextFile : Nat

def Broker.start (k : Config) : Broker where
  names := Names.new
  replies := []
  policy := k.policy
  conns := []
  nextId := 1
  bcastSerial := 0
  driverSerial := 0
  svctab := k.svctab
  acts := []
  nmonitors := 0
  systemBus := k.systemBus
  draining := false
  actenv := k.actenv
  reportFd := none
  reports := []
  reload := { pid := none, deadline := 0, running := false, dirty := false, run := [], next := [], tab := [] }
  dissolves := k.dissolves
  overrideDir := k.overrideDir
  table := k.table
  nextFile := k.nextFile
  badCloses := []
  ownerLog := []
  copies := []

def Reachable (k : Config) (b : Broker) : Prop :=
  Run.Reaches step (fun _ _ => True) (Broker.start k) b

/-! ## Rounds are runs -/

theorem processInbound_eq_foldl (env : Env) (id : ConnId) (fuel : Nat) (b : Broker) :
    b.processInbound env id fuel = (List.replicate fuel ⟨env, .deliver id⟩).foldl step b := by
  induction fuel generalizing b with
  | zero => rfl
  | succ fuel ih => exact ih _

theorem onReadable_run (env : Env) (b : Broker) (id : ConnId) (data : Bytes) (nfds : Nat)
    (h : b.draining = false) : ∃ is : List Input, b.onReadable env id data nfds = is.foldl step b := by
  have hreceive : step b ⟨env, .receive id data nfds⟩ = b.receive env id data nfds := by
    simp [step, h]
  rw [Broker.onReadable, processInbound_eq_foldl, ← hreceive]
  exact ⟨⟨env, .receive id data nfds⟩ :: List.replicate _ ⟨env, .deliver id⟩, rfl⟩

end SchemaInit.Dbus
