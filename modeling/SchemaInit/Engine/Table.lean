/-
# `SchemaInit.Engine.Table` — the service table, cgroups and evictions

The engine's state is the service table with the groups, the evictions (processes
of services a reload dropped, and cgroups left to be removed) and the fd store.
Beside them stand two things the source has no variable for: the cgroups that
exist, each with its `cgroup.freeze` value, and a trace of what the engine did to
the outside (spawns, signals, kills, closed sockets), which the properties are about.

Each call of the engine is given a `World`, so its answers may differ from call to
call in any way.
-/
import SchemaInit.Lib.Sweep
import SchemaInit.Engine.Service

namespace SchemaInit.Engine

/-! ## The outside -/

inductive WaitStatus where
  | exited (code : Int)
  | signaled (sig : Int) (core : Bool)

def WaitStatus.clean : WaitStatus → Bool
  | .exited code => code = 0
  | .signaled _ _ => false

structure FileStat where
  dev : Nat
  ino : Nat
  ctime : Timespec
  isDir : Bool := false

inductive FreezeOpen where
  | ok
  | enoent
  | failed

/-- What the outside answers: the clocks, whether a fork succeeds and with which pid, what a file
holds. -/
structure World where
  now : Timespec := .zero                       -- CLOCK_MONOTONIC
  wall : Timespec := .zero                      -- CLOCK_REALTIME
  memKb : Int := 0                              -- MemAvailable
  root : Bool := true                           -- geteuid() == 0
  execExists : Bool := true
  execRuns : Bool := true
  sockAccepts : Bool := true
  condsMet : Bool := true
  listenFds : Option (List Int) := some []      -- one descriptor per listen= line, or a failure
  slotId : Int := -1
  pipe : Bool := true
  fork : Option Nat := none                     -- of the main process
  joins : Bool := true                          -- the pid is written to the new cgroup.procs
  cardFork : Option Nat := none
  failsafeFork : Option Nat := none
  stopFork : Nat → Option Nat := fun _ => none  -- of a stop runner, by service index
  rmdir : Bytes → Bool := fun _ => true         -- cgroup_rmdir_tree removes the cgroup
  populated : Bytes → Bool := fun _ => false
  killable : Bytes → Bool := fun _ => true      -- cgroup.kill or cgroup.procs can be opened
  hasChildren : Bytes → Bool := fun _ => false
  freezeOpen : Bytes → FreezeOpen := fun _ => .ok
  readyStat : Option FileStat := none
  readyThere : Bool := false                    -- access(ready_path)
  watchOk : Bool := true                        -- inotify_add_watch
  pidFile : Nat := 0                            -- a live pid of the cgroup, 0 if none
  alive : Nat → Bool := fun _ => false
  inCgroup : Nat → Bytes → Bool := fun _ _ => false
  ours : Nat → Bool := fun _ => false           -- pid_parent(p) == getpid()
  calNext : Int := 0                            -- calendar_next_after
  calRecent : Int := 0                          -- calendar_recent_occurrence
  stamp : Int := 0                              -- timer_stamp_read
  termWait : Option WaitStatus := none          -- reaped within 50 ms of SIGTERM
  killWait : Option WaitStatus := none          -- reaped within 50 ms of SIGKILL
  cardGone : Bool := true
  failsafeGone : Bool := false
  limitsMatch : Bool := true
  fdRoom : Int → Bool := fun _ => true          -- fdstore_room

/-! ## The state -/

structure Group where
  name : Bytes
  memberName : List Bytes := []
  memberIdx : List (Option Nat) := []
  state : State := .newProcess
  refused : Bool := false
  deriving DecidableEq, Inhabited

/-- `eviction_t`.  `born`, the length of the trace when the entry was made, is not in
the source: it dates the entry against the spawns. -/
structure Eviction where
  pid : Nat
  cgroup : Bytes
  deadline : Int
  reaped : Bool := false
  killed : Nat := 0
  born : Nat := 0
  deriving DecidableEq

structure FdEnt where
  svc : Bytes
  name : Bytes
  fd : Int
  deriving DecidableEq

structure Cgroup where
  path : Bytes
  frozen : Bool := false
  deriving DecidableEq

inductive Sig where
  | term
  | kill
  | abrt
  | stop
  | cont
  deriving DecidableEq

/-- What the engine does to the outside.  A spawn and an eviction kill are recorded
with the service table of that moment, the kill also with the date of its entry. -/
inductive Effect where
  | spawn (i : Nat) (table : List Service)
  | signal (pid : Nat) (sig : Sig)
  | signalGroup (pid : Nat) (sig : Sig)
  | cgroupKill (cg : Bytes)
  | evictKill (cg : Bytes) (born : Nat) (table : List Service)
  | orphaned (name : Bytes) (pid : Nat)
  | close (fd : Int)
  deriving DecidableEq

def cgroupPath (root name : Bytes) : Bytes :=
  (root ++ ch '/' :: name).take 255

structure Pid1 where
  services : List Service := []
  groups : List Group := []
  evictions : List Eviction := []
  fdstore : List FdEnt := []
  cgroupRoot : Bytes := cstr "/sys/fs/cgroup/schema-init"
  busReporterSeen : Bool := false
  notifyPausedSince : Int := 0
  underPressure : Bool := false
  lastStallMs : Nat := 0
  readyEventDue : Int := 0
  readyBackstopDue : Int := 0
  cgroups : List Cgroup := []
  trace : List Effect := []
  deriving DecidableEq, Inhabited

variable (w : World)

namespace Pid1

def at_ (e : Pid1) (i : Nat) : Service :=
  e.services.getD i default

def put (e : Pid1) (i : Nat) (s : Service) : Pid1 :=
  { e with services := e.services.set i s }

def mod (e : Pid1) (i : Nat) (f : Service → Service) : Pid1 :=
  e.put i (f (e.at_ i))

def emit (e : Pid1) (k : Effect) : Pid1 :=
  { e with trace := e.trace ++ [k] }

def count (e : Pid1) : Nat :=
  e.services.length

def find (e : Pid1) (name : Bytes) : Option Nat :=
  e.services.findIdx? fun s => s.conf.name = name

/-! ## Cgroups -/

def cgroupPathFor (e : Pid1) (name : Bytes) : Bytes :=
  cgroupPath e.cgroupRoot name

def cgroupExists (e : Pid1) (cg : Bytes) : Bool :=
  e.cgroups.any fun c => c.path = cg

def cgroupRmdirTree (cg : Bytes) (e : Pid1) : Pid1 :=
  if w.rmdir cg then { e with cgroups := e.cgroups.filter fun c => c.path ≠ cg } else e

def cgroupMkdir (cg : Bytes) (e : Pid1) : Pid1 :=
  if e.cgroupExists cg then e else { e with cgroups := e.cgroups ++ [{ path := cg }] }

/-! ## Evictions -/

def evictionAddAs (pid : Nat) (cg : Bytes) (reaped : Bool) (killed : Nat) (grace : Int) (e : Pid1) :
    Pid1 :=
  if e.evictions.length ≥ maxEvictions then e
  else
    { e with
      evictions := e.evictions ++
        [{ pid := pid, cgroup := cg, deadline := w.now.sec + grace, reaped := reaped, killed := killed,
           born := e.trace.length }] }

def evictGraceSecs : Int := 3
def evictKillWaitSecs : Int := 5
def evictStuckRecheckSecs : Int := 60

def evictionAdd (pid : Nat) (cg : Bytes) (e : Pid1) : Pid1 :=
  evictionAddAs w pid cg false 0 evictGraceSecs e

/-- `eviction_forget`: only entries for a tree left behind, which have no pid. -/
def evictionForget (cg : Bytes) (e : Pid1) : Pid1 :=
  { e with
    evictions := (Sweep.sweep (fun (_ : Unit) ev => ((), if ev.pid = 0 ∧ ev.cgroup = cg then none else some ev))
      () e.evictions).2 }

/-- What `svc_cgroup_kill_tree` does to a cgroup: kill what is in it and remove it, or
leave that to the eviction sweep. -/
def killTreeAt (cg : Bytes) (e : Pid1) : Pid1 :=
  if cg.isEmpty then e
  else
    let e := cgroupRmdirTree w cg (e.emit (.cgroupKill cg))
    if e.cgroupExists cg then evictionAddAs w 0 cg true 1 1 (evictionForget cg e) else e

def evictionDrop (ev : Eviction) (e : Pid1) : Pid1 :=
  if ev.cgroup.isEmpty then e else cgroupRmdirTree w ev.cgroup e

def sweepEvictions (f : Pid1 → Eviction → Pid1 × Option Eviction) (e : Pid1) : Pid1 :=
  let r := Sweep.sweep f e e.evictions
  { r.1 with evictions := r.2 }

def evictionEmptied (e : Pid1) (ev : Eviction) : Pid1 × Option Eviction :=
  if !ev.cgroup.isEmpty && (ev.reaped || ev.killed ≠ 0) && !w.populated ev.cgroup then (evictionDrop w ev e, none)
  else (e, some ev)

def evictionReaped (pid : Nat) (e : Pid1) : Pid1 :=
  let e :=
    match e.evictions.findIdx? fun ev => ev.pid = pid ∧ ¬ ev.reaped with
    | none => e
    | some k =>
      match e.evictions[k]? with
      | none => e
      | some ev =>
        if ev.cgroup.isEmpty then
          { evictionDrop w ev e with evictions := e.evictions.take k ++ Sweep.refill (e.evictions.drop (k + 1)) }
        else { e with evictions := e.evictions.set k { ev with reaped := true } }
  sweepEvictions (evictionEmptied w) e

/-- One entry of `eviction_readded`: a service of the table that is not running would
be spawned into the entry's cgroup. -/
def evictionBack (e : Pid1) (ev : Eviction) : Pid1 × Option Eviction :=
  if e.services.any fun s => s.rt.childPid = 0 && !ev.cgroup.isEmpty && ev.cgroup = e.cgroupPathFor s.conf.name then
    let e := if w.populated ev.cgroup then e.emit (.evictKill ev.cgroup ev.born e.services) else e
    (evictionDrop w ev e, none)
  else (e, some ev)

def evictionReadded (e : Pid1) : Pid1 :=
  sweepEvictions (evictionBack w) e

def evictionDue (e : Pid1) (ev : Eviction) : Pid1 × Option Eviction :=
  if w.now.sec < ev.deadline then (e, some ev)
  else
    let live := if ev.cgroup.isEmpty then true else w.populated ev.cgroup
    if ev.killed ≠ 0 then
      if !live then (evictionDrop w ev e, none)
      else (e, some { ev with killed := 2, deadline := w.now.sec + evictStuckRecheckSecs })
    else if !live then (evictionDrop w ev e, none)
    else
      let e := if ev.cgroup.isEmpty then e else e.emit (.evictKill ev.cgroup ev.born e.services)
      let killed := !ev.cgroup.isEmpty && w.killable ev.cgroup
      -- no cgroup, or neither of its files usable: a direct SIGKILL
      let direct := !killed && !ev.reaped && ev.pid > 0
      let e := if direct then (e.emit (.signalGroup ev.pid .kill)).emit (.signal ev.pid .kill) else e
      if (killed || direct) && !ev.cgroup.isEmpty then
        (e, some { ev with killed := 1, deadline := w.now.sec + evictKillWaitSecs })
      else (evictionDrop w ev e, none)

def evictionTick (e : Pid1) : Pid1 :=
  sweepEvictions (evictionDue w) e

end Pid1

/-! ## Work on one service -/

inductive Op where
  | signal (pid : Nat) (sig : Sig)
  | signalGroup (pid : Nat) (sig : Sig)
  | close (fd : Int)
  | killTree (cg : Bytes)
  | assign (cg : Bytes)
  deriving DecidableEq

def Pid1.apply (e : Pid1) : Op → Pid1
  | .signal pid sig => e.emit (.signal pid sig)
  | .signalGroup pid sig => e.emit (.signalGroup pid sig)
  | .close fd => e.emit (.close fd)
  | .killTree cg => e.killTreeAt w cg
  -- a fresh cgroup, unless an old one of that path cannot be removed
  | .assign cg => (e.cgroupRmdirTree w cg).cgroupMkdir cg

/-- A service while a call works on it, and what the call has done so far. -/
structure Loc where
  svc : Service
  ops : List Op := []

namespace Loc

def op (l : Loc) (o : Op) : Loc :=
  { l with ops := l.ops ++ [o] }

def signal (l : Loc) (pid : Nat) (sig : Sig) : Loc :=
  l.op (.signal pid sig)

def killTree (l : Loc) : Loc :=
  { (l.op (.killTree l.svc.rt.cgroupPath)) with svc.rt.cgroupPath := [] }

end Loc

def Pid1.on (i : Nat) (f : Loc → Loc) (e : Pid1) : Pid1 :=
  let l := f { svc := e.at_ i }
  (l.ops.foldl (Pid1.apply w) e).put i l.svc

end SchemaInit.Engine
