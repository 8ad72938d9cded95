/-
# `SchemaInit.Engine.Reap` — a child has exited

`reap` looks the pid up among the cards, stop runners and main processes of the
services.  The exit of a main process may be a stop of the bound service, the
handover of a launcher (`main_pid_notify`, `pid_file`), the end of a timer's or a
oneshot's run, the idle exit of a socket service, or a death (`reapVerdict`).  A pid
nobody claims is an evicted one.
-/
import SchemaInit.Engine.Stop

namespace SchemaInit.Engine

variable (w : World)

namespace Service

def noteExit (st : WaitStatus) (s : Service) : Service :=
  { s with
    rt.exit :=
      match st with
      | .exited code => { status := code, termSignal := 0, coreDumped := false, hasExited := true }
      | .signaled sig core => { status := -1, termSignal := sig, coreDumped := core, hasExited := true } }

def markBootReady (how : Ready) (s : Service) : Service :=
  if s.rt.boot.ready.isSet then s else { s with rt.boot.ready := s.rt.stableTime, rt.boot.how := how }

/-! ## Timers -/

def timerArmCalendar (s : Service) : Service :=
  { s with rt.timerNext := ⟨w.calNext, 0⟩ }

def timerArmPersistent (s : Service) : Service :=
  timerArmCalendar w { s with rt.timerCatchupWait := true }

/-- Arm a timer that is new to PID 1: the block of `engine_arm_timers`, `handle_reload`
and `schema-ctl add`. -/
def timerArm (s : Service) : Service :=
  let s := { s with rt.inst.state := .perfect }
  if s.flags.timerCalendar then if s.flags.timerPersist then s.timerArmPersistent w else s.timerArmCalendar w
  else { s with rt.timerNext := w.now.addSec s.conf.timerBootSec }

def timerRearm (s : Service) : Service :=
  let s := { s with rt.inst.state := .perfect, rt.timerCatchupWait := false }
  if s.flags.timerCalendar then s.timerArmCalendar w
  else if s.conf.timerIntervalSec > 0 then { s with rt.timerNext := w.now.addSec s.conf.timerIntervalSec }
  -- a run-once timer is done for good
  else { s with flags.timer := false }

def timerCatchupCheck (s : Service) : Service :=
  if w.stamp = 0 then s.timerArmCalendar w
  else if w.calRecent > w.stamp then { s with rt.timerNext := ⟨w.wall.sec, 0⟩ }
  else s.timerArmCalendar w

/-! ## Handovers -/

def pidFileRead (s : Service) : Nat :=
  if s.rt.cgroupPath.isEmpty then 0 else w.pidFile

def forkAdopt (s : Service) : Service :=
  let p := s.pidFileRead w
  if p ≠ 0 then { s with rt.childPid := p, rt.fork.state := 1 }
  else if s.rt.fork.state = 0 then { s with rt.fork.state := -1, rt.fork.wait := w.now.addSec pidFileWaitSecs }
  else s

def mainpidOk (s : Service) (p : Nat) : Bool :=
  p > 1 && w.alive p && !s.rt.cgroupPath.isEmpty && w.inCgroup p s.rt.cgroupPath

def mainAdopt (p : Nat) (s : Service) : Service :=
  { s with rt.childPid := p, rt.main.pid := p, rt.main.wait := false }

def mainAwait (s : Service) : Service :=
  { s with rt.main := { pid := 0, wait := true, waitDue := w.now.addSec mainpidWaitSecs } }

/-- The exited process is the launcher of a `main_pid_notify` service. -/
def launched (s : Service) (pid : Nat) : Bool :=
  s.flags.mainPidNotify && pid ≠ s.rt.main.pid && !s.rt.ctlKilled && !(s.flags.timer || s.flags.oneshot) &&
    s.rt.listen.open_ = 0 && (s.rt.main.pid ≠ 0 || !s.rt.ready.notifyReady)

/-- The exited process is a `pid_file` launcher that leaves its daemon behind. -/
def handsOver (s : Service) (st : WaitStatus) : Bool :=
  !s.conf.pidFile.isEmpty && s.rt.fork.state = 0 && s.rt.inst.state = .fullTrust && !s.rt.ctlKilled && st.clean

/-- A socket service is idle and waits for the next connection. -/
def socketIdle (s : Service) (st : WaitStatus) : Bool :=
  s.rt.listen.open_ ≠ 0 && !s.rt.ctlKilled && !s.flags.oneshot && (st.clean || s.flags.noRestart) &&
    w.now.sec - s.rt.spawnTime.sec ≥ listenMinRunSecs

end Service

/-- The bound is gone or on its way out. -/
def boundDown (table : List Service) (s : Service) : Bool :=
  match bindBound table s with
  | none => true
  | some t =>
    let bd := table.getD t default
    !bd.isUp || bd.rt.ctlKilled || (bd.rt.stop.pid > 0 && bd.rt.stop.phase % 4 = 1)

/-- The `bind=` part of `reap`: the exit is the bound's doing, or is remembered in case
the bound follows. -/
def Service.bindDeath (table : List Service) (s : Service) : Service :=
  if s.conf.bindName.isEmpty || s.rt.bind.held || s.rt.ctlKilled then s
  else if boundDown table s then s.bindHold table
  else if s.rt.exit.termSignal ≠ 0 || (s.rt.exit.hasExited && s.rt.exit.status ≠ 0) then
    { s with
      rt.bind.diedAt := w.now
      rt.bind.savedRestarts := s.rt.restartCount
      rt.bind.savedDormant := s.rt.dormantCount }
  else s

namespace Loc

def reapVerdict (st : WaitStatus) (l : Loc) : Loc :=
  let s := l.svc
  if s.socketIdle w st then { l with svc.rt.inst.state := .perfect, svc.rt.stableTime := w.now }
  else if st.clean && s.flags.oneshot then
    { l with svc := Service.markBootReady .exit { s with rt.inst.state := .perfect, rt.stableTime := w.now } }
  else if s.flags.noRestart then
    killTree { l with svc.rt.inst.state := .excised, svc.rt.exciseReason := s.exciseReasonFromExit }
  else if s.rt.ctlKilled then
    let l := if !s.conf.pidFile.isEmpty || s.flags.mainPidNotify then l.killTree else l
    { l with svc.rt.inst.state := .newProcess }
  else
    let l := startFailsafe w { l with svc := s.restartBudgetRefresh w }
    { l with svc.rt.inst.state := .recovery }

def reapExited (i : Nat) (st : WaitStatus) (l : Loc) : Loc :=
  let s := l.svc
  -- a service that made cgroups of its own leaves a tree the next run could not join
  let l := if !s.handsOver st && !s.rt.cgroupPath.isEmpty && w.hasChildren s.rt.cgroupPath then l.killTree else l
  if s.flags.timer then stopCmdsBegin w i 2 { l with svc := l.svc.timerRearm w }
  else if s.handsOver st then
    if s.rt.cgroupPath.isEmpty then { l with svc.rt.inst.state := .excised, svc.rt.exciseReason := .noCgroup }
    else { l with svc := l.svc.forkAdopt w }
  else stopCmdsBegin w i 2 (l.reapVerdict w st)

def reapRest (i : Nat) (st : WaitStatus) (l : Loc) : Loc :=
  reapExited w i st { l with svc.rt.main.pid := 0 }

/-- `reap` of the launcher of a `main_pid_notify` service that exited with 0. -/
def reapLauncher (i : Nat) (l : Loc) : Loc :=
  let s := l.svc
  if s.rt.cgroupPath.isEmpty then
    stopCmdsBegin w i 2 { l with svc.rt.inst.state := .excised, svc.rt.exciseReason := .noCgroup }
  else
    let mp := s.rt.main.pid
    if mp ≠ 0 && s.mainpidOk w mp && w.ours mp then { l with svc := s.mainAdopt mp }
    else { l with svc := Service.mainAwait w { s with mainRejected := if mp ≠ 0 then mp else s.mainRejected } }

def reapMain (table : List Service) (i pid : Nat) (st : WaitStatus) (l : Loc) : Loc :=
  let s := (Service.noteExit st { l.svc with rt.childPid := 0 }).bindDeath w table
  if s.rt.bind.held then
    let l := { l with svc := { s with rt.inst.state := .excised, rt.exciseReason := .bind, rt.main.wait := false } }
    l.killTree.stopCmdsBegin w i 2
  else if s.launched pid then
    if st.clean then reapLauncher w i { l with svc := s }
    -- a failed launcher takes what it started with it
    else reapRest w i st (killTree { l with svc := s })
  else reapRest w i st { l with svc := s }

end Loc

def Pid1.reap (pid : Nat) (st : WaitStatus) (e : Pid1) : Pid1 :=
  match e.services.findIdx? fun s => s.rt.card.pid = pid || s.rt.stop.pid = pid || s.rt.childPid = pid with
  | none => e.evictionReaped w pid
  | some i =>
    let s := e.at_ i
    if s.rt.card.pid = pid then e.mod i fun s => { s with rt.card.pid := 0 }
    else if s.rt.stop.pid = pid then e.on w i (Loc.stopCmdsDone w i)
    else e.on w i (Loc.reapMain w e.services i pid st)

end SchemaInit.Engine
