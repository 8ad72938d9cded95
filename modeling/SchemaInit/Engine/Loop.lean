/-
# `SchemaInit.Engine.Loop` — the main loop

One turn of `engine_run` handles what `poll` reported (connections for waiting socket
services, exited children, commands, messages) and then makes one pass over the
services.  Here each of these is an event of its own and a run is any sequence of them,
so every interleaving the loop can produce is a run.

    pass:  pressure, readiness recheck, timer catch-up, bind_tick, ticks, fd store,
           failsafes, groups, evictions, watchdog, snapshot for the next bind_tick
-/
import SchemaInit.Lib.Run
import SchemaInit.Engine.Tick
import SchemaInit.Engine.Command
import SchemaInit.Engine.Notify

namespace SchemaInit.Engine

namespace Pid1

/-! ## Memory pressure -/

def thawDelayMs : Nat := 5000

def setCgroupFreeze (w : World) (freeze : Bool) (i : Nat) (e : Pid1) : Pid1 :=
  let s := e.at_ i
  if s.rt.cgroupPath.isEmpty then e
  else if s.rt.isFrozen = freeze then e
  else
    match w.freezeOpen s.rt.cgroupPath with
    | .ok =>
      let written (c : Cgroup) : Cgroup := if c.path = s.rt.cgroupPath then { c with frozen := freeze } else c
      let e := { e with cgroups := e.cgroups.map written }
      e.mod i fun s => { s with rt.isFrozen := freeze }
    | .enoent =>
      if s.rt.childPid > 0 then
        (e.emit (.signal s.rt.childPid (if freeze then .stop else .cont))).mod i fun s =>
          { s with rt.isFrozen := freeze }
      else e
    | .failed => e

def executeSurvivalPosture (w : World) (under : Bool) (e : Pid1) : Pid1 :=
  (List.range e.count).foldl
    (fun e i =>
      let s := e.at_ i
      if s.rt.childPid = 0 then e
      else if s.conf.priority = .peripheral then setCgroupFreeze w under i e
      else e)
    e

inductive Posture where
  | none
  | enter
  | exit

/-- `pressure_step` on the engine's variables; the subtraction is of 64-bit words. -/
def pressureStep (nowMs : Nat) (stalled : Bool) (e : Pid1) : Pid1 × Posture :=
  if stalled then
    if e.underPressure then ({ e with lastStallMs := nowMs }, .none)
    else ({ e with lastStallMs := nowMs, underPressure := true }, .enter)
  else if e.underPressure && (nowMs + 2 ^ 64 - e.lastStallMs) % 2 ^ 64 ≥ thawDelayMs then
    ({ e with underPressure := false }, .exit)
  else (e, .none)

def loopPressure (w : World) (nowMs : Nat) (stalled : Bool) (e : Pid1) : Pid1 :=
  match pressureStep nowMs stalled e with
  | (e, .none) => e
  | (e, .enter) => executeSurvivalPosture w true e
  | (e, .exit) => executeSurvivalPosture w false e

/-! ## A pass -/

def readyEventGraceMs : Int := 100
def readyBackstopMs : Int := 30000

def readyInotifyDrain (nowMs : Nat) (e : Pid1) : Pid1 :=
  if e.readyEventDue = 0 then { e with readyEventDue := nowMs + readyEventGraceMs } else e

def fdstoreKeep (e : Pid1) (name : Bytes) : Bool :=
  match e.services.find? fun s => s.conf.name = name with
  | none => false
  | some s => s.conf.fdstoreMax > 0 && !s.rt.inst.state.gone

end Pid1

/-- The answers of the outside during a pass: in general, and for each service in each of
the loops over the table. -/
structure Pass where
  w : World := {}
  nowMs : Nat := 0
  stalled : Bool := false
  recheck : Nat → World := fun _ => {}
  catchup : Nat → World := fun _ => {}
  tick : Nat → World := fun _ => {}
  monitor : Nat → World := fun _ => {}

namespace Pid1

def passRecheck (p : Pass) (e : Pid1) : Pid1 :=
  if (e.readyEventDue ≠ 0 && (p.nowMs : Int) ≥ e.readyEventDue) || (p.nowMs : Int) ≥ e.readyBackstopDue then
    readyRecheckAll p.recheck { e with readyEventDue := 0, readyBackstopDue := p.nowMs + readyBackstopMs }
  else e

def passTicks (p : Pass) (groups : List State) (e : Pid1) : Pid1 :=
  (List.range e.count).foldl (fun e i => tickService (p.tick i) groups i e) e

/-- What a pass does after the ticks; `states` are those from before them. -/
def passTail (p : Pass) (states : List State) (e : Pid1) : Pid1 :=
  let e := { e with fdstore := e.fdstore.filter fun x => e.fdstoreKeep x.svc }
  let e := monitorFailsafes p.monitor e
  let e := { e with groups := groupsUpdate e.groups states }
  bindSnapshotUp (serviceWatchdogTick p.w (evictionTick p.w e))

def pass (p : Pass) (e : Pid1) : Pid1 :=
  let e := passRecheck p (loopPressure p.w p.nowMs p.stalled e)
  let groups := e.groups.map (·.state)
  let states := svcStates e.services
  passTail p states (passTicks p groups (bindTick p.w (timerCatchupTick p.catchup e)))

def socketWake (i : Nat) (e : Pid1) : Pid1 :=
  if (e.at_ i).listenWaiting then e.mod i fun s =>
    { s with rt.inst.state := .newProcess, rt.listen.hold := false } else e

end Pid1

/-! ## Runs -/

inductive Input where
  | wake (i : Nat)
  | child (w : World) (pid : Nat) (st : WaitStatus)
  | hup (w : World) (ws : Nat → World) (c : Config)
  | ctl (w : World) (ws : Nat → World) (cmd : Cmd)
  | notify (w : World) (m : Msg)
  | pause (w : World) (paused : Bool)
  | inotify (nowMs : Nat)
  | pass (p : Pass)

namespace Pid1

def step (e : Pid1) : Input → Pid1
  | .wake i => socketWake i e
  | .child w pid st => if pid = 0 then e else reap w pid st e
  | .hup w ws c => (handleReload w ws false c e).1
  | .ctl w ws cmd => (ctlCmd w ws cmd e).1
  | .notify w m => notifyPoll w m e
  | .pause w paused => notifyPauseTrack w paused e
  | .inotify nowMs => readyInotifyDrain nowMs e
  | .pass p => pass p e

def boot (ws : Nat → World) (root : Bytes) (c : Config) : Pid1 :=
  let r := validateAndResolve c.services c.groups
  { services := r.1.mapIdx fun i s => if s.flags.timer then s.timerArm (ws i) else s
    groups := r.2.1
    cgroupRoot := root }

/-- PID 1 has just started; with a dependency cycle it drops to a rescue shell. -/
def Started (e : Pid1) : Prop :=
  ∃ ws root c, (validateAndResolve c.services c.groups).2.2 = 0 ∧ e = boot ws root c

def Reachable (e : Pid1) : Prop :=
  ∃ s, Started s ∧ Run.Reaches step (fun _ _ => True) s e

end Pid1

end SchemaInit.Engine
