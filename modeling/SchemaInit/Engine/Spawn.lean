/-
# `SchemaInit.Engine.Spawn` — starting and ending a main process

`service_spawn` opens the sockets, forks and moves the child into its cgroup; a call is
recorded in the trace with the table it is made on.  `active_kill_service` ends a
process that is not ready in time or lost its `ready_path`: it waits for the exit
itself, so `reap` never sees it.
-/
import SchemaInit.Engine.Reap

namespace SchemaInit.Engine

variable (w : World)

namespace Service

/-- The start of `service_spawn`: what belonged to the last run is cleared, and the file
at `ready_path` is remembered as stale. -/
def spawnPrep (s : Service) : Service :=
  let s := { s with
    rt.ready.pathVerified := false
    readyWatched := 0
    rt.ctlKilled := false
    rt.exciseReason := .none
    rt.bind.diedAt := .zero
    rt.ready.staleIno := 0 }
  if s.conf.readyPath.isEmpty then s
  else
    match w.readyStat with
    | none => s
    | some st =>
      if st.isDir then s
      else { s with rt.ready.staleDev := st.dev, rt.ready.staleIno := st.ino, rt.ready.staleCtime := st.ctime }

def listenOpen (s : Service) : Option Service :=
  if s.rt.listen.open_ ≠ 0 then some s
  else
    match w.listenFds with
    | none => none
    | some fds =>
      some { s with
        rt.listen.fds := fds ++ s.rt.listen.fds.drop fds.length
        rt.listen.open_ := s.conf.listen.length }

def slotViolation (s : Service) : Bool :=
  s.conf.allowedSlotMin ≥ 0 && (w.slotId < s.conf.allowedSlotMin || w.slotId > s.conf.allowedSlotMax)

def spawned (pid : Nat) (s : Service) : Service :=
  { s with
    rt.childPid := pid
    rt.fork.state := 0
    rt.main.pid := 0
    rt.main.wait := false
    rt.lastStart := w.wall.sec
    rt.startTime := w.wall.sec
    rt.spawnTime := w.now
    rt.boot.spawn := if s.rt.boot.spawn.isSet then s.rt.boot.spawn else w.now
    rt.watchdog.lastPet := w.now
    rt.watchdog.abortAt := .zero
    rt.watchdog.armedSec := if s.conf.notify && s.conf.watchdogSec > 0 then s.conf.watchdogSec else 0
    rt.ready.notifyReady := false
    rt.ready.notifyStatus := [] }

def readyPathFresh (s : Service) : Bool :=
  match w.readyStat with
  | none => false
  | some st =>
    !(s.rt.ready.staleIno ≠ 0 && st.ino = s.rt.ready.staleIno && st.dev = s.rt.ready.staleDev &&
      st.ctime = s.rt.ready.staleCtime)

def readyLive (s : Service) : Bool :=
  s.rt.inst.state = .fundamental && !s.conf.readyPath.isEmpty && s.rt.childPid > 0 && !s.rt.ctlKilled &&
    s.rt.ready.pathVerified

end Service

namespace Loc

def listenClose (l : Loc) : Loc :=
  { l with
    svc.rt.listen.open_ := 0
    ops := l.ops ++ (l.svc.rt.listen.fds.take l.svc.rt.listen.open_).map Op.close }

def cgroupAssign (root : Bytes) (l : Loc) : Loc :=
  if l.svc.conf.name = cstr "init.scope" then { l with svc.rt.cgroupPath := [] }
  else
    let cg := cgroupPath root l.svc.conf.name
    { (l.op (.assign cg)) with svc.rt.cgroupPath := if w.joins then cg else [] }

def spawnFork (root : Bytes) (l : Loc) : Loc × Bool :=
  match w.fork with
  | none => (l, false)
  | some pid =>
    let l := { l with svc := l.svc.spawned w pid }
    let l := if root.isEmpty then l else l.cgroupAssign w root
    if l.svc.rt.cgroupPath.isEmpty && (l.svc.verifiesLimits || l.svc.flags.mainPidNotify) then
      ({ (l.signal pid .kill) with svc.rt.childPid := 0 }, false)
    else (l, true)

def serviceSpawn (root : Bytes) (l : Loc) : Loc × Bool :=
  let s := l.svc.spawnPrep w
  match if s.conf.listen.isEmpty then some s else s.listenOpen w with
  | none => ({ l with svc := s }, false)
  | some s =>
    if !w.pipe then ({ l with svc := s }, false)
    else if s.slotViolation w then ({ l with svc := { s with flags.noRestart := true } }, false)
    else spawnFork w root { l with svc := s }

def childGone (i : Nat) (st : WaitStatus) (l : Loc) : Loc :=
  (killTree { l with svc := { Service.noteExit st l.svc with rt.childPid := 0 } }).stopCmdsBegin w i 2

def activeKillService (i : Nat) (l : Loc) : Loc :=
  let pid := l.svc.rt.childPid
  if pid = 0 then l
  else
    let l := signal { l with svc := l.svc.restartBudgetRefresh w } pid .term
    match w.termWait with
    | some st => l.childGone w i st
    -- not reaped in time either: the cause is the SIGKILL just sent
    | none => (l.signal pid .kill).childGone w i (w.killWait.getD (.signaled 9 false))

/-! ## Readiness -/

def readyLost (i : Nat) (l : Loc) : Loc :=
  let l := l.activeKillService w i
  if l.svc.flags.noRestart then { l with svc.rt.inst.state := .excised, svc.rt.exciseReason := .readinessLost }
  else { (l.startFailsafe w) with svc.rt.inst.state := .recovery }

def readyWatch (i : Nat) (l : Loc) : Loc :=
  let l := { l with svc.readyWatched := if w.watchOk then 1 else -1 }
  if w.watchOk && !w.readyThere then l.readyLost w i else l

def readyRecheck (i : Nat) (l : Loc) : Loc :=
  let s := l.svc
  if !s.readyLive || s.readyWatched ≤ 0 || s.conf.readyPollHz > 0 then l
  else if !w.readyThere then l.readyLost w i
  else { l with svc.readyWatched := 0 }

end Loc

def Pid1.each (ws : Nat → World) (f : World → Nat → Loc → Loc) (e : Pid1) : Pid1 :=
  (List.range e.count).foldl (fun e i => e.on (ws i) i (f (ws i) i)) e

def Pid1.readyRecheckAll (ws : Nat → World) (e : Pid1) : Pid1 :=
  e.each ws Loc.readyRecheck

end SchemaInit.Engine
