/-
# `SchemaInit.Engine.Tick` — one pass over the services

`tick_service` is the state machine of a service: one case per state, after the
quarantine fuse.  `bind_tick` runs before the ticks of a pass and acts on the edges of
bound services; `monitor_failsafes`, the service watchdog and the snapshot for the next
pass's edges run after them.
-/
import SchemaInit.Engine.Spawn

namespace SchemaInit.Engine

/-- A dependency in `FRICTION` or `EXCISED` blows the fuse; the loop of `tick_service`
stops at the first slot without a service. -/
def fuseTrips (table : List Service) (s : Service) : Bool :=
  s.conf.fuse && s.rt.inst.state ≠ .excised &&
    ((s.depIdx.take maxDeps).takeWhile Option.isSome).any fun d =>
      let st := (table.getD (d.getD 0) default).rt.inst.state
      st = .friction || st = .excised

variable (w : World)

namespace Service

/-- `stable_secs` are over; a bus name is waited for longer, if names are reported. -/
def readyTimerDue (reporterSeen : Bool) (s : Service) : Bool :=
  let ran := w.now.sec - s.rt.spawnTime.sec
  if !s.conf.readyBusName.isEmpty && !s.rt.cgroupPath.isEmpty && reporterSeen && ran < busNameWaitSecs then false
  else ran ≥ s.conf.stableSecs

/-- What makes the service ready in this pass, if anything. -/
def readyHow (reporterSeen : Bool) (s : Service) : Ready :=
  if !s.conf.pidFile.isEmpty && s.rt.fork.state ≠ 1 then .none
  else if (s.conf.notify || !s.conf.readyBusName.isEmpty) && s.rt.ready.notifyReady then
    if s.conf.readyBusName.isEmpty then .notify else .bus
  else if s.verifiesLimits then .none
  else if !s.conf.readyPath.isEmpty && s.readyPathFresh w then .path
  else if !s.conf.pidFile.isEmpty then if s.rt.fork.state = 1 then .pidfile else .none
  else if s.readyTimerDue w reporterSeen then .timer
  else .none

/-- `start_timeout` is over without `READY=1`. -/
def startTimedOut (paused : Bool) (s : Service) : Bool :=
  s.conf.startTimeoutSec > 0 && s.rt.childPid > 0 && !paused && !s.rt.ready.notifyReady &&
    w.now.sec - s.rt.spawnTime.sec ≥ s.conf.startTimeoutSec

def timerDue (s : Service) : Bool :=
  let now := if s.flags.timerCalendar then w.wall else w.now
  now.sec > s.rt.timerNext.sec || (now.sec = s.rt.timerNext.sec && now.nsec ≥ s.rt.timerNext.nsec)

/-- `case STATE_NEW_PROCESS`: a retry hold or one of its helpers still runs. -/
def newProcessWaits (s : Service) : Bool :=
  s.rt.failsafePid > 0 || s.rt.card.pid > 0 || s.rt.stop.pid > 0 || s.retryHeld w.now

end Service

namespace Loc

/-- A blown fuse: the service is out, and its process is killed. -/
def tickFuse (l : Loc) : Loc :=
  let pid := l.svc.rt.childPid
  let l := { l with svc.rt.inst.state := .excised, svc.rt.exciseReason := .fuse }
  if pid > 0 then { (l.signal pid .kill).killTree with svc.rt.childPid := 0 } else l

def schemaStep (flags : Nat) (l : Loc) : Loc :=
  { l with svc.rt.inst := Engine.schemaStep l.svc.rt.inst flags }

/-! ## `NEW_PROCESS` -/

/-- A socket service is up with its sockets, without a process. -/
def tickListen (l : Loc) : Loc :=
  match l.svc.listenOpen w with
  | none =>
    { l with svc.rt.listen.hold := false, svc.rt.inst.state := .excised, svc.rt.exciseReason := .listenFail }
  | some s =>
    { l with svc := Service.markBootReady .socket { s with rt.inst.state := .perfect, rt.stableTime := w.now } }

/-- A condition fails: the service counts as done, a timer waits for its next time. -/
def conditionSkip (l : Loc) : Loc :=
  let l := l.listenClose
  if l.svc.flags.timer then { l with svc := l.svc.timerRearm w }
  else
    { l with
      svc := Service.markBootReady .condition { l.svc with rt.inst.state := .perfect, rt.stableTime := w.now } }

def orRecover (r : Loc × Bool) : Loc :=
  if r.2 then r.1 else { r.1 with svc.rt.inst.state := .recovery }

def tickSpawn (root : Bytes) (l : Loc) : Loc :=
  orRecover (l.serviceSpawn w root)

/-! ## `FULL_TRUST` -/

def startTimeout (i : Nat) (l : Loc) : Loc :=
  let l := (l.activeKillService w i).startFailsafe w
  if !l.svc.flags.critical && !l.svc.conf.noExcise then
    { l with svc.rt.inst.state := .excised, svc.rt.exciseReason := .startTimeout }
  else { l with svc.rt.inst.state := .recovery }

/-- The wait for a `pid_file` ends with the main process or at its deadline. -/
def tickFork (l : Loc) : Loc :=
  let s := l.svc.forkAdopt w
  if s.rt.fork.state < 0 && w.now.sec ≥ s.rt.fork.wait.sec then
    let l := killTree { l with svc := { s with rt.fork.state := 0 } }
    let l := startFailsafe w { l with svc := l.svc.restartBudgetRefresh w }
    { l with svc.rt.inst.state := .recovery }
  else { l with svc := s }

/-- The F8 vote on a service that is ready. -/
def tickPromote (reporterSeen : Bool) (flags : Nat) (l : Loc) : Loc :=
  let s := l.svc
  let how := s.readyHow w reporterSeen
  if s.flags.oneshot || s.rt.childPid = 0 || how = .none then l
  else
    let l := schemaStep flags { l with svc.rt.ready.pathVerified := s.rt.ready.pathVerified || how = .path }
    let l := if l.svc.rt.inst.state = .excised then { l with svc.rt.exciseReason := .probe } else l
    if l.svc.rt.inst.state ≠ .fullTrust then
      { l with svc := Service.markBootReady how { l.svc with rt.stableTime := w.now } }
    else l

def tickFullTrust (paused reporterSeen : Bool) (flags i : Nat) (l : Loc) : Loc :=
  if l.svc.startTimedOut w paused then l.startTimeout w i
  else if l.svc.rt.fork.state < 0 then l.tickFork w
  else l.tickPromote w reporterSeen flags

/-! ## `FUNDAMENTAL` -/

/-- The loop passes between two polls of a `ready_path` with `ready_poll_hz`. -/
def ticksToWait (hz : Int) : Int :=
  if 4 > hz then max 1 (4 / hz) else 1

def tickReadyPoll (i : Nat) (l : Loc) : Loc :=
  let s := l.svc
  if s.rt.ready.pathVerified && s.conf.readyPollHz > 0 then
    if s.readyCheckTicks + 1 ≥ ticksToWait s.conf.readyPollHz then
      let l := { l with svc.readyCheckTicks := 0 }
      if !w.readyThere then l.readyLost w i else l
    else { l with svc.readyCheckTicks := s.readyCheckTicks + 1 }
  else if s.rt.ready.pathVerified && s.readyWatched < 0 && !w.readyThere then l.readyLost w i
  else l

/-- A `ready_path` that was seen has to stay. -/
def tickFundamental (i : Nat) (l : Loc) : Loc :=
  let s := l.svc
  if s.conf.readyPath.isEmpty || s.rt.childPid = 0 || s.rt.ctlKilled then l
  else
    let l := { l with svc.rt.ready.pathVerified := s.rt.ready.pathVerified || s.readyPathFresh w }
    if l.svc.rt.ready.pathVerified && l.svc.readyWatched = 0 then
      let l := l.readyWatch w i
      if l.svc.rt.inst.state = .fundamental then l.tickReadyPoll w i else l
    else l.tickReadyPoll w i

end Loc

namespace Pid1

def fallbackRuns (e : Pid1) (i : Nat) : Bool :=
  match serviceFallback e.services i with
  | none => false
  | some j => (e.at_ j).rt.childPid > 0

/-- `case STATE_NEW_PROCESS` once everything it waits for is there: the F8 vote, and the
spawn if it passes. -/
def tickLaunch (i : Nat) (e : Pid1) : Pid1 :=
  let e := e.on w i (Loc.schemaStep (serviceProbeF8 w e.services (e.at_ i)))
  if (e.at_ i).rt.inst.state = .fullTrust then
    let e := e.evictionForget (e.cgroupPathFor (e.at_ i).conf.name)
    (e.emit (.spawn i e.services)).on w i (Loc.tickSpawn w e.cgroupRoot)
  else e

/-- `wait_socket`, the conditions, the sockets, and then the start. -/
def tickConditions (i : Nat) (e : Pid1) : Pid1 :=
  let s := e.at_ i
  if !s.conf.waitSocket.isEmpty && !w.sockAccepts then e.mod i fun s => { s with sockWaiting := true }
  else
    let e := e.mod i fun s => { s with sockWaiting := false }
    if !s.conf.cond.isEmpty && !w.condsMet then e.on w i (Loc.conditionSkip w)
    else if s.rt.listen.hold then e.on w i (Loc.tickListen w)
    else tickLaunch w i e

def tickNewProcess (groups : List State) (i : Nat) (e : Pid1) : Pid1 :=
  let s := e.at_ i
  if s.newProcessWaits w then e
  else if !s.rt.card.standbyUp && serviceIsStandby e.services i then
    e.mod i fun s => { s with flags.noRestart := true, rt.inst.state := .excised, rt.exciseReason := .none }
  else if s.rt.card.fallbackLive && e.fallbackRuns i then e
  else if !serviceDepsReady e.services groups s then e
  else tickConditions w i e

/-- The next try: counted, held back, and with its card played. -/
def requeue (i : Nat) (e : Pid1) : Pid1 :=
  playCard w i (e.mod i fun s =>
    Service.holdRetry { s with rt.inst.state := .newProcess, rt.restartCount := s.rt.restartCount + 1 } w.now)

/-- The F9 vote: another try, or on to `FRICTION`. -/
def tickRecovery (i : Nat) (e : Pid1) : Pid1 :=
  let e := e.on w i (Loc.schemaStep (serviceProbeF9 w e.services i))
  if (e.at_ i).rt.inst.state = .settled then requeue w i e else e

def fallbackUpOf (i : Nat) (e : Pid1) : Pid1 :=
  if (e.at_ i).rt.card.fallbackLive then
    match serviceFallback e.services i with
    | none => e
    | some j => e.mod j Service.fallbackUp
  else e

/-- The F6 vote: another try, or the verdict, and then the fallback. -/
def tickFriction (i : Nat) (e : Pid1) : Pid1 :=
  let e := e.on w i (Loc.schemaStep (serviceProbeF6 w (e.at_ i)))
  if (e.at_ i).rt.inst.state = .recovery then requeue w i e
  else if (e.at_ i).rt.inst.state = .excised then
    fallbackUpOf i (e.on w i fun l => { l.killTree with svc := l.killTree.svc.frictionVerdict w })
  else e

/-- Parked until its time; then another try, and the fallback goes. -/
def tickDormant (i : Nat) (e : Pid1) : Pid1 :=
  if w.now.sec ≥ (e.at_ i).rt.dormantUntil.sec then
    let e := e.mod i fun s => { s with rt.inst.state := .newProcess, rt.restartCount := s.rt.restartCount + 1 }
    playCard w i (fallbackDownOf w i e)
  else e

def tickState (groups : List State) (i : Nat) (e : Pid1) : Pid1 :=
  let s := e.at_ i
  match s.rt.inst.state with
  | .newProcess => tickNewProcess w groups i e
  | .fullTrust =>
    e.on w i (Loc.tickFullTrust w (e.notifyPausedSince ≠ 0) e.busReporterSeen (serviceProbeF8 w e.services s) i)
  | .recovery => tickRecovery w i e
  | .friction => tickFriction w i e
  | .dormant => tickDormant w i e
  | .fundamental => e.on w i (Loc.tickFundamental w i)
  | .perfect => if s.flags.timer && s.timerDue w then e.mod i fun s => { s with rt.inst.state := .newProcess } else e
  | .excised | .settled => e

def tickService (groups : List State) (i : Nat) (e : Pid1) : Pid1 :=
  tickState w groups i (if fuseTrips e.services (e.at_ i) then e.on w i Loc.tickFuse else e)

/-! ## Before the ticks -/

/-- Missed calendar runs are made up for once `mount-fstab` is through. -/
def timerCatchupTick (ws : Nat → World) (e : Pid1) : Pid1 :=
  if !(e.services.any fun s => s.rt.timerCatchupWait) then e
  else if e.services.any fun s =>
      s.conf.name = cstr "mount-fstab" && s.rt.inst.state ≠ .perfect && s.rt.inst.state ≠ .excised &&
        s.rt.inst.state ≠ .dormant && s.rt.inst.state ≠ .recovery then e
  else
    { e with
      services := e.services.mapIdx fun i s =>
        if !s.rt.timerCatchupWait then s
        else
          let s := { s with rt.timerCatchupWait := false }
          -- not PERFECT: it is firing on the calendar right now, that is the run
          if s.rt.inst.state = .perfect then s.timerCatchupCheck (ws i) else s }

def bindStart (b : Service) : Service :=
  { b with rt.bind.held := false, rt.exciseReason := .none, rt.inst.state := .newProcess }

/-- A service that has lost its `bind=` is not held any more. -/
def bindReleased (b : Service) : Service :=
  if b.rt.bind.held then
    if b.rt.inst.state = .excised && b.rt.exciseReason = .bind && b.rt.childPid = 0 then bindStart b
    else { b with rt.bind.held := false }
  else b

def bindExcise (table : List Service) (b : Service) : Service :=
  { b.bindHold table with rt.inst.state := .excised, rt.exciseReason := .bind }

/-- No service has the name of the bound. -/
def bindMissing (j : Nat) (e : Pid1) : Pid1 :=
  let b := e.at_ j
  if b.rt.bind.held then e
  else if b.rt.childPid > 0 then bindStop (stopMain w) j e
  else e.mod j fun b => if b.rt.inst.state ≠ .excised then bindExcise e.services b else b.bindHold e.services

/-- `went_down` of `bind_tick`: gone since the last pass, or back already with a new
process. -/
def wentDown (bd : Service) : Bool :=
  bd.rt.bind.wasUp && (!bd.isUp || (bd.rt.listen.open_ = 0 && bd.rt.spawnTime ≠ bd.rt.bind.seenSpawn))

/-- The death was so shortly before the bound's that it counts as the bound's. -/
def diedInGrace (b : Service) : Bool :=
  let ago := (w.now.sec - b.rt.bind.diedAt.sec) * 1000 + Int.tdiv (w.now.nsec - b.rt.bind.diedAt.nsec) 1000000
  b.rt.bind.diedAt.isSet && 0 ≤ ago && ago < bindGraceMs

/-- The bound went down: the binder is stopped, or its own death is taken back. -/
def bindEdge (j t : Nat) (e : Pid1) : Pid1 :=
  let b := e.at_ j
  if !wentDown (e.at_ t) then e
  else if b.rt.childPid > 0 then bindStop (stopMain w) j e
  else if !b.rt.bind.held && !b.rt.circuitBroken && diedInGrace w b then
    e.mod j fun b =>
      bindExcise e.services { b with
        rt.restartCount := b.rt.bind.savedRestarts
        rt.dormantCount := b.rt.bind.savedDormant
        rt.restartAt := .zero }
  else e

/-- `back` of `bind_tick`: the bound is up, is not stopping, and its run is newer than the
hold. -/
def boundBack (bd b : Service) : Bool :=
  bd.isUp && bd.rt.stop.pid = 0 && !bd.rt.ctlKilled && bd.rt.spawnTime.after b.rt.bind.heldSince

/-- `bind_tick` for a binder after the edge: started again if the bound is back, held if the
bound is gone. -/
def bindFollow (table : List Service) (bd b : Service) : Service :=
  let b := if b.rt.bind.held && boundBack bd b && b.rt.childPid = 0 && b.rt.stop.pid = 0 then bindStart b else b
  -- strict start: bind= never lets an excised dependency through
  if !b.rt.bind.held && b.rt.childPid = 0 && b.rt.inst.state = .newProcess && bd.rt.inst.state.gone then
    bindExcise table b
  else b

/-- `bind_tick` for one service.  The source reads `up` before it acts on the edge; a stop
of the binder does not change it. -/
def bindTickOne (j : Nat) (e : Pid1) : Pid1 :=
  if (e.at_ j).conf.bindName.isEmpty then e.mod j bindReleased
  else
    match bindBound e.services (e.at_ j) with
    | none => bindMissing w j e
    | some t =>
      let e := bindEdge w j t e
      e.mod j (bindFollow e.services (e.at_ t))

def bindTick (e : Pid1) : Pid1 :=
  (List.range e.count).foldl (fun e j => bindTickOne w j e) e

/-! ## After the ticks -/

/-- What the edges of the next pass are seen against. -/
def bindSnapshotUp (e : Pid1) : Pid1 :=
  { e with
    services := e.services.map fun s =>
      { s with
        rt.bind.wasUp := s.isUp
        rt.bind.seenSpawn := if s.isUp then s.rt.spawnTime else s.rt.bind.seenSpawn } }

end Pid1

namespace Loc

def msSince (t : Timespec) : Int :=
  (w.now.sec - t.sec) * 1000 + Int.tdiv (w.now.nsec - t.nsec) 1000000

def monitorCard (l : Loc) : Loc :=
  let s := l.svc
  if s.rt.card.pid > 0 && w.now.sec - s.rt.card.start.sec ≥ cardTimeoutSecs then
    let l := (l.op (.signalGroup s.rt.card.pid .kill)).signal s.rt.card.pid .kill
    if w.cardGone then { l with svc.rt.card.pid := 0 } else l
  else l

/-- The deadline for `MAINPID=`. -/
def monitorMain (i : Nat) (l : Loc) : Loc :=
  if l.svc.rt.main.wait && w.now.sec ≥ l.svc.rt.main.waitDue.sec then
    let l := killTree { l with svc.rt.main.wait := false }
    let l := startFailsafe w { l with svc := l.svc.restartBudgetRefresh w }
    let l :=
      if l.svc.flags.noRestart then { l with svc.rt.inst.state := .excised, svc.rt.exciseReason := .mainPidTimeout }
      else { l with svc.rt.inst.state := .recovery }
    l.stopCmdsBegin w i 2
  else l

/-- `exec_stop` is out of time: it is killed, and SIGTERM follows. -/
def monitorStop (l : Loc) : Loc :=
  let s := l.svc
  if s.rt.stop.pid > 0 && s.rt.stop.phase / 4 % 2 = 0 && msSince w s.rt.stop.start ≥ s.stopGraceMs then
    let l := (l.op (.signalGroup s.rt.stop.pid .kill)).signal s.rt.stop.pid .kill
    let l := if s.rt.stop.phase = 1 && s.rt.childPid > 0 then l.signal s.rt.childPid .term else l
    { l with svc.rt.stop.phase := s.rt.stop.phase ||| 4 }
  else l

def monitorFailsafe (l : Loc) : Loc :=
  let s := l.svc
  if s.rt.failsafePid = 0 then l
  else if w.failsafeGone then { l with svc.rt.failsafePid := 0 }
  else if msSince w s.rt.failsafeStart ≥ (if s.conf.failsafeTimeoutMs > 0 then s.conf.failsafeTimeoutMs else 500) then
    l.signal s.rt.failsafePid .kill
  else l

def monitor (i : Nat) (l : Loc) : Loc :=
  (((l.monitorCard w).monitorMain w i).monitorStop w).monitorFailsafe w

def msCeil (t : Timespec) : Int :=
  t.sec * 1000 + (t.nsec + 999999) / 1000000

/-- When the watchdog barks, or after SIGABRT bites. -/
def wdDue (wd : WatchdogRt) : Int :=
  if wd.abortAt.isSet then msCeil wd.abortAt + 90000 else msCeil wd.lastPet + wd.armedSec * 1000

def watchdogTick (paused : Bool) (w : World) (l : Loc) : Loc :=
  let s := l.svc
  let wd := s.rt.watchdog
  if wd.armedSec ≤ 0 || s.rt.childPid = 0 || !s.rt.ready.notifyReady || s.rt.ctlKilled then l
  else if s.rt.isFrozen || paused then
    { l with
      svc.rt.watchdog.lastPet := w.now
      svc.rt.watchdog.abortAt := if wd.abortAt.isSet then w.now else wd.abortAt }
  else if msCeil w.now < wdDue wd then l
  else if wd.abortAt.isSet then
    { (l.signal s.rt.childPid .kill) with svc.rt.watchdog.abortAt := .zero, svc.rt.watchdog.lastPet := w.now }
  else { (l.signal s.rt.childPid .abrt) with svc.rt.watchdog.abortAt := w.now }

end Loc

namespace Pid1

def monitorFailsafes (ws : Nat → World) (e : Pid1) : Pid1 :=
  e.each ws Loc.monitor

def serviceWatchdogTick (e : Pid1) : Pid1 :=
  e.each (fun _ => w) fun w _ => Loc.watchdogTick (e.notifyPausedSince ≠ 0) w

end Pid1

end SchemaInit.Engine
