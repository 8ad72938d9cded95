/-
# `SchemaInit.Engine.Notify` — messages from services

One datagram of the notify socket, after `notify_parse`.  The broker reports the owner
of a bus name; any other message counts for the first service that hears its sender:
one with `notify=1` (or a store to fill) whose main process or cgroup the sender is.
-/
import SchemaInit.Engine.Spawn

namespace SchemaInit.Engine

/-- A datagram: its sender, what `notify_parse` found and the descriptors it carried. -/
structure Msg where
  pid : Nat
  broker : Bool := false            -- notify_sender_is_broker
  ready : Bool := false
  watchdog : Bool := false
  status : Bytes := []
  busname : Bytes := []
  busOwnerPid : Nat := 0
  fdstore : Bool := false
  fdstoreRemove : Bool := false
  fdname : Bytes := []
  fds : List Int := []
  mainpid : Nat := 0
  deriving DecidableEq

/-! ## The fd store -/

def fdstoreMaxTotal : Nat := 4096

def fdstoreValidName (name : Bytes) : Bool :=
  1 ≤ name.length && name.length ≤ 63 && name.all fun c =>
    (ch 'A' ≤ c && c ≤ ch 'Z') || (ch 'a' ≤ c && c ≤ ch 'z') || (ch '0' ≤ c && c ≤ ch '9') ||
      c = ch '_' || c = ch '.' ||
      c = ch '-'

variable (w : World)

def fdstoreAdd (svc name : Bytes) (max : Int) (store : List FdEnt) (fd : Int) : List FdEnt :=
  let name := if name.isEmpty then cstr "stored" else name
  if max ≤ 0 || !w.fdRoom fd || svc.length ≥ 64 || !fdstoreValidName name || store.length ≥ fdstoreMaxTotal ||
      ((store.filter fun x => x.svc = svc).length : Int) ≥ max then store
  else store ++ [{ svc := svc, name := name, fd := fd }]

def fdstoreRemove (svc name : Bytes) (store : List FdEnt) : List FdEnt :=
  store.filter fun x => !(x.svc = svc && x.name = name)

namespace Service

def stores (s : Service) (m : Msg) : Bool :=
  s.conf.fdstoreMax > 0 && (m.fdstore || m.fdstoreRemove) && s.rt.childPid = m.pid

def hears (m : Msg) (s : Service) : Bool :=
  (s.conf.notify || s.stores m) && (s.rt.childPid > 0 || s.rt.main.wait) &&
    (s.rt.childPid = m.pid || (!s.rt.cgroupPath.isEmpty && w.inCgroup m.pid s.rt.cgroupPath))

def ownsBus (m : Msg) (s : Service) : Bool :=
  !s.conf.readyBusName.isEmpty && s.rt.childPid > 0 && !s.rt.ready.notifyReady && s.conf.readyBusName = m.busname &&
    (s.rt.childPid = m.busOwnerPid || (!s.rt.cgroupPath.isEmpty && w.inCgroup m.busOwnerPid s.rt.cgroupPath))

def hearMainpid (p : Nat) (s : Service) : Service :=
  if p = 0 || !s.flags.mainPidNotify then s
  else if !s.mainpidOk w p then { s with mainRejected := p }
  else if s.rt.main.wait || (s.rt.main.pid ≠ 0 && s.rt.childPid = s.rt.main.pid) then
    if w.ours p then s.mainAdopt p else { s with mainRejected := p }
  -- the launcher still runs: adopt at its exit
  else if p ≠ s.rt.childPid then { s with rt.main.pid := p }
  else s

def hearStatus (m : Msg) (s : Service) : Service :=
  let s := if m.status.isEmpty then s else { s with rt.ready.notifyStatus := m.status }
  if m.watchdog then { s with rt.watchdog.lastPet := w.now } else s

end Service

namespace Pid1

def hearStores (i : Nat) (m : Msg) (e : Pid1) : Pid1 :=
  let s := e.at_ i
  if !s.stores m then e
  else
    let store := if m.fdstore then m.fds.foldl
      (fdstoreAdd w s.conf.name m.fdname s.conf.fdstoreMax) e.fdstore else e.fdstore
    { e with fdstore := if m.fdstoreRemove then fdstoreRemove s.conf.name m.fdname store else store }

end Pid1

namespace Loc

/-- The `READY=1` of a message: limits asked for but not in force fail the service. -/
def hearReady (l : Loc) : Loc :=
  if l.svc.rt.ready.notifyReady then l
  else
    let l := { l with svc.rt.ready.notifyReady := true, svc.rt.watchdog.lastPet := w.now }
    if l.svc.verifiesLimits && (l.svc.rt.cgroupPath.isEmpty || !w.limitsMatch) then
      killTree { l with svc.rt.ready.notifyReady := false }
    else l

def hear (m : Msg) (l : Loc) : Loc :=
  let l := { l with svc := (l.svc.hearMainpid w m.mainpid).hearStatus w m }
  if m.ready then l.hearReady w else l

end Loc

namespace Pid1

def notifyPoll (m : Msg) (e : Pid1) : Pid1 :=
  if !m.busname.isEmpty then
    if m.busOwnerPid = 0 || !m.broker then e
    else
      { e with
        busReporterSeen := true
        services := e.services.map fun s => if s.ownsBus w m then { s with rt.ready.notifyReady := true } else s }
  else
    match e.services.findIdx? (Service.hears w m) with
    | none => e
    | some i =>
      let e := hearStores w i m e
      if (e.at_ i).conf.notify then e.on w i (Loc.hear w m) else e

def resumeOne (since : Int) (s : Service) : Service :=
  let s :=
    if s.rt.childPid > 0 then
      { s with
        rt.watchdog.lastPet := w.now
        rt.watchdog.abortAt := if s.rt.watchdog.abortAt.isSet then w.now else s.rt.watchdog.abortAt }
    else s
  if s.rt.inst.state = .fullTrust && s.rt.childPid > 0 && !s.rt.ready.notifyReady &&
      (s.conf.notify || !s.conf.readyBusName.isEmpty) then
    let ran := w.now.sec - s.rt.spawnTime.sec
    let dt := w.now.sec - since
    { s with rt.spawnTime.sec := s.rt.spawnTime.sec + if dt < ran then dt else ran }
  else s

def notifyPauseTrack (paused : Bool) (e : Pid1) : Pid1 :=
  if paused = (e.notifyPausedSince ≠ 0) then e
  else if paused then { e with notifyPausedSince := if w.now.sec ≠ 0 then w.now.sec else 1 }
  else { e with notifyPausedSince := 0, services := e.services.map (resumeOne w e.notifyPausedSince) }

end Pid1

end SchemaInit.Engine
