/-
# `SchemaInit.Engine.Arc` — the state diagram of a service

The functions of the engine move a service along *arcs*.  An arc says what one branch of
one function does to the fields the service's course depends on (`Service.core`), under
which guard.  The other fields only delay it or report on it.

    kind      who draws it
    exit      the end of the main process (`reap`)
    done      the same with success, for a oneshot or a socket service
    lost      the same for a launcher without a cgroup
    tick      `tick_service` and `play_card`, for the service itself
    other     the deck of another service: `fallback_up`, `fallback_down`
    stop      the stop of its bound: `bind_stop`
    bind      `bind_tick`
    monitor   the `MAINPID=` deadline of `monitor_failsafes`
    hear      a message
    wake      a connection
    ctl       an operator's command
    halt      an operator's stop
    pause     the end of a pause of the notify socket
    help      what many of them do on the way: drop the cgroup, or what does not count

Three more kinds are no arcs of their own: `spawn`, the call of `service_spawn` with what
it makes of the service (`SpawnArc`); `freeze`, memory pressure; and `op`, what a call
does to the service's cgroup and sockets.

The functions are shown to follow the arcs in `SchemaInit.Engine.Moves`; every property
of whole runs is read off the diagram.
-/
import SchemaInit.Engine.Loop

namespace SchemaInit.Engine

/-! ## The fields that count -/

def Service.core (s : Service) : Service where
  conf := s.conf
  flags := s.flags
  depIdx := s.depIdx
  grpDepIdx := s.grpDepIdx
  rt :=
    { childPid := s.rt.childPid
      inst := { schemaInstanceInit 0 .perfect with state := s.rt.inst.state }
      restartCount := s.rt.restartCount
      dormantCount := s.rt.dormantCount
      circuitBroken := s.rt.circuitBroken
      exciseReason := s.rt.exciseReason
      bind :=
        { held := s.rt.bind.held
          diedAt := s.rt.bind.diedAt
          savedRestarts := s.rt.bind.savedRestarts
          savedDormant := s.rt.bind.savedDormant }
      ctlKilled := s.rt.ctlKilled
      spawnTime := s.rt.spawnTime
      cgroupPath := s.rt.cgroupPath
      isFrozen := s.rt.isFrozen
      fork := { state := s.rt.fork.state }
      listen := { hold := s.rt.listen.hold, open_ := s.rt.listen.open_ }
      card := { next := s.rt.card.next, fallbackLive := s.rt.card.fallbackLive, standbyUp := s.rt.card.standbyUp }
      main := { pid := s.rt.main.pid, wait := s.rt.main.wait } }

/-! ## Arcs -/

inductive HelpArc (s : Service) : Service → Prop
  | quiet {s' : Service} (h : s'.core = s.core) : HelpArc s s'
  | tree : HelpArc s { s with rt.cgroupPath := [] }

def Service.refreshed (s : Service) : Service :=
  { s with rt.restartCount := 0, rt.card.next := 0, rt.card.fallbackLive := false }

def LongRun (W : World → Prop) (s : Service) : Prop :=
  ∃ w, W w ∧ w.now.sec - s.rt.spawnTime.sec ≥ restartResetSecs

inductive ExitArc (W : World → Prop) (s : Service) : Service → Prop
  | refresh (hage : LongRun W s) (hchild : s.rt.childPid ≠ 0) : ExitArc W s s.refreshed
  | mark (now : Timespec) (hbind : s.conf.bindName ≠ []) (hheld : s.rt.bind.held = false)
      (hctl : s.rt.ctlKilled = false) (hchild : s.rt.childPid ≠ 0) :
      ExitArc W s { s with
        rt.bind.diedAt := now
        rt.bind.savedRestarts := s.rt.restartCount
        rt.bind.savedDormant := s.rt.dormantCount }
  | hold (hbind : s.conf.bindName ≠ []) (hheld : s.rt.bind.held = false) (hctl : s.rt.ctlKilled = false)
      (hchild : s.rt.childPid ≠ 0) :
      ExitArc W s { s with rt.bind.held := true, rt.bind.diedAt := .zero }
  | bound (hchild : s.rt.childPid ≠ 0) (hheld : s.rt.bind.held = true) :
      ExitArc W s { s with
        rt.childPid := 0, rt.inst.state := .excised, rt.exciseReason := .bind, rt.main.wait := false }
  | launcherAdopt (hchild : s.rt.childPid ≠ 0) (hmain : s.flags.mainPidNotify = true)
      (hctl : s.rt.ctlKilled = false) (hpid : s.rt.main.pid ≠ 0) :
      ExitArc W s { s with rt.childPid := s.rt.main.pid, rt.main.wait := false }
  | launcherAwait (hchild : s.rt.childPid ≠ 0) (hmain : s.flags.mainPidNotify = true)
      (hctl : s.rt.ctlKilled = false) (htimer : s.flags.timer = false) :
      ExitArc W s { s with rt.childPid := 0, rt.main.pid := 0, rt.main.wait := true }
  | timer (hchild : s.rt.childPid ≠ 0) (htimer : s.flags.timer = true) (again : Bool) :
      ExitArc W s { s with
        rt.childPid := 0, rt.main.pid := 0, rt.inst.state := .perfect, flags.timer := again }
  | forkAdopt (p : Nat) (hp : p ≠ 0) (hchild : s.rt.childPid ≠ 0) (hfile : s.conf.pidFile ≠ [])
      (hst : s.rt.inst.state = .fullTrust) (hctl : s.rt.ctlKilled = false) :
      ExitArc W s { s with rt.childPid := p, rt.main.pid := 0, rt.fork.state := 1 }
  | forkWait (hchild : s.rt.childPid ≠ 0) (hfile : s.conf.pidFile ≠ []) (hst : s.rt.inst.state = .fullTrust)
      (hctl : s.rt.ctlKilled = false) :
      ExitArc W s { s with rt.childPid := 0, rt.main.pid := 0, rt.fork.state := -1 }
  | idle (hchild : s.rt.childPid ≠ 0) (hopen : s.rt.listen.open_ ≠ 0) (hctl : s.rt.ctlKilled = false)
      (hone : s.flags.oneshot = false) (hno : s.flags.noRestart = true) :
      ExitArc W s { s with rt.childPid := 0, rt.main.pid := 0, rt.inst.state := .perfect }
  | noRestart (hchild : s.rt.childPid ≠ 0) (hno : s.flags.noRestart = true) (why : Exc) :
      ExitArc W s { s with rt.childPid := 0, rt.main.pid := 0, rt.inst.state := .excised, rt.exciseReason := why }
  | ctlRestart (hchild : s.rt.childPid ≠ 0) (hno : s.flags.noRestart = false) (hctl : s.rt.ctlKilled = true) :
      ExitArc W s { s with rt.childPid := 0, rt.main.pid := 0, rt.inst.state := .newProcess }
  | died (hchild : s.rt.childPid ≠ 0) (hno : s.flags.noRestart = false) (hctl : s.rt.ctlKilled = false) :
      ExitArc W s { s with rt.childPid := 0, rt.main.pid := 0, rt.inst.state := .recovery }

inductive LostArc (s : Service) : Service → Prop
  | launcher (hchild : s.rt.childPid ≠ 0) (hmain : s.flags.mainPidNotify = true) (hctl : s.rt.ctlKilled = false)
      (hcg : s.rt.cgroupPath = []) :
      LostArc s { s with rt.childPid := 0, rt.inst.state := .excised, rt.exciseReason := .noCgroup }
  | fork (hchild : s.rt.childPid ≠ 0) (hfile : s.conf.pidFile ≠ []) (hst : s.rt.inst.state = .fullTrust)
      (hctl : s.rt.ctlKilled = false) (hcg : s.rt.cgroupPath = []) :
      LostArc s { s with
        rt.childPid := 0, rt.main.pid := 0, rt.inst.state := .excised, rt.exciseReason := .noCgroup }

/-- The exit ends a run with success: the process of a oneshot is done, or that of a socket
service has nothing left to serve. -/
def Service.succeeds (s : Service) (st : WaitStatus) : Bool :=
  st.clean && !s.handsOver st && (s.flags.oneshot || s.rt.listen.open_ ≠ 0)

inductive DoneArc (s : Service) : Service → Prop
  | idle (hchild : s.rt.childPid ≠ 0) (hopen : s.rt.listen.open_ ≠ 0) (hctl : s.rt.ctlKilled = false)
      (hone : s.flags.oneshot = false) :
      DoneArc s { s with rt.childPid := 0, rt.main.pid := 0, rt.inst.state := .perfect }
  | oneshot (hchild : s.rt.childPid ≠ 0) (hone : s.flags.oneshot = true) (htimer : s.flags.timer = false) :
      DoneArc s { s with rt.childPid := 0, rt.main.pid := 0, rt.inst.state := .perfect }

def Service.cleared (s : Service) (n : Nat) : Service :=
  { s with rt.ctlKilled := false, rt.exciseReason := .none, rt.bind.diedAt := .zero, rt.listen.open_ := n }

def Service.forked (s : Service) (pid : Nat) (now : Timespec) (cg : Bytes) : Service :=
  { s with
    rt.childPid := pid
    rt.fork.state := 0
    rt.main.pid := 0
    rt.main.wait := false
    rt.spawnTime := now
    rt.cgroupPath := cg }

/-- What a call of `service_spawn` makes of the service in `NEW_PROCESS` it is made for,
and the state `tick_service` leaves it in. -/
inductive SpawnArc (e : Pid1) (s : Service) : Service → Prop
  | spawned (now : Timespec) (n pid : Nat) (cg : Bytes) (hn : n = s.rt.listen.open_ ∨ n = s.conf.listen.length)
      (hcg : cg = [] ∨ cg = s.rt.cgroupPath ∨ cg = e.cgroupPathFor s.conf.name) :
      SpawnArc e s { (s.cleared n).forked pid now cg with rt.inst.state := .fullTrust }
  | failed (n : Nat) (hn : n = s.rt.listen.open_ ∨ n = s.conf.listen.length) :
      SpawnArc e s { s.cleared n with rt.inst.state := .recovery }
  | slot (n : Nat) (hn : n = s.rt.listen.open_ ∨ n = s.conf.listen.length) (hslot : s.conf.allowedSlotMin ≥ 0) :
      SpawnArc e s { s.cleared n with rt.inst.state := .recovery, flags.noRestart := true }
  | killed (now : Timespec) (n : Nat) (hn : n = s.rt.listen.open_ ∨ n = s.conf.listen.length) :
      SpawnArc e s { (s.cleared n).forked 0 now [] with rt.inst.state := .recovery }

inductive TickArc (W : World → Prop) (e : Pid1) (i : Nat) (s : Service) : Service → Prop
  | refresh (hage : LongRun W s) (hrun : s.rt.childPid ≠ 0 ∨ s.rt.fork.state < 0) : TickArc W e i s s.refreshed
  | fuse (hfuse : s.conf.fuse = true) :
      TickArc W e i s { s with rt.inst.state := .excised, rt.exciseReason := .fuse, rt.childPid := 0 }
  | standby (hst : s.rt.inst.state = .newProcess) (hup : s.rt.card.standbyUp = false)
      (hname : serviceIsStandby e.services i = true) :
      TickArc W e i s { s with flags.noRestart := true, rt.inst.state := .excised, rt.exciseReason := .none }
  | skipTimer (hst : s.rt.inst.state = .newProcess) (htimer : s.flags.timer = true) (again : Bool) :
      TickArc W e i s { s with rt.listen.open_ := 0, rt.inst.state := .perfect, flags.timer := again }
  | skip (hst : s.rt.inst.state = .newProcess) (htimer : s.flags.timer = false) :
      TickArc W e i s { s with rt.listen.open_ := 0, rt.inst.state := .perfect }
  | listenFail (hst : s.rt.inst.state = .newProcess) (hhold : s.rt.listen.hold = true) :
      TickArc W e i s { s with rt.listen.hold := false, rt.inst.state := .excised, rt.exciseReason := .listenFail }
  | listenHeld (hst : s.rt.inst.state = .newProcess) (hhold : s.rt.listen.hold = true) (n : Nat)
      (hn : n = s.rt.listen.open_ ∨ n = s.conf.listen.length) :
      TickArc W e i s { s with rt.listen.open_ := n, rt.inst.state := .perfect }
  | blocked (hst : s.rt.inst.state = .newProcess) : TickArc W e i s { s with rt.inst.state := .recovery }
  | startTimeout (hst : s.rt.inst.state = .fullTrust) (hchild : s.rt.childPid ≠ 0) (hsecs : s.conf.startTimeoutSec > 0)
      (hcrit : s.flags.critical = false) (hexc : s.conf.noExcise = false) :
      TickArc W e i s { s with rt.childPid := 0, rt.inst.state := .excised, rt.exciseReason := .startTimeout }
  | startRetry (hst : s.rt.inst.state = .fullTrust) (hchild : s.rt.childPid ≠ 0) (hsecs : s.conf.startTimeoutSec > 0)
      (hkeep : s.flags.critical = true ∨ s.conf.noExcise = true) :
      TickArc W e i s { s with rt.childPid := 0, rt.inst.state := .recovery }
  | readyLost (hst : s.rt.inst.state = .fundamental) (hchild : s.rt.childPid ≠ 0) (hctl : s.rt.ctlKilled = false)
      (hpath : s.conf.readyPath ≠ []) (hno : s.flags.noRestart = false) :
      TickArc W e i s { s with rt.childPid := 0, rt.inst.state := .recovery }
  | readyExcised (hst : s.rt.inst.state = .fundamental) (hchild : s.rt.childPid ≠ 0) (hctl : s.rt.ctlKilled = false)
      (hpath : s.conf.readyPath ≠ []) (hno : s.flags.noRestart = true) :
      TickArc W e i s { s with rt.childPid := 0, rt.inst.state := .excised, rt.exciseReason := .readinessLost }
  | forkAdopt (hst : s.rt.inst.state = .fullTrust) (hfork : s.rt.fork.state < 0) (p : Nat) (hp : p ≠ 0) :
      TickArc W e i s { s with rt.childPid := p, rt.fork.state := 1 }
  | forkMissing (hst : s.rt.inst.state = .fullTrust) (hfork : s.rt.fork.state < 0) :
      TickArc W e i s { s with rt.fork.state := 0, rt.inst.state := .recovery }
  | promote (hst : s.rt.inst.state = .fullTrust) (hchild : s.rt.childPid ≠ 0) :
      TickArc W e i s { s with rt.inst.state := .fundamental }
  | retry (hst : s.rt.inst.state = .recovery ∨ s.rt.inst.state = .friction)
      (hbudget : s.rt.restartCount < s.conf.maxRestarts) :
      TickArc W e i s { s with rt.inst.state := .newProcess, rt.restartCount := s.rt.restartCount + 1 }
  | friction (hst : s.rt.inst.state = .recovery) : TickArc W e i s { s with rt.inst.state := .friction }
  | breaker (hst : s.rt.inst.state = .friction) (hspent : s.conf.maxRestarts ≤ s.rt.restartCount)
      (hcrit : s.flags.critical = false) (hexc : s.conf.noExcise = false) (hdormant : s.rt.dormantCount ≥ 4) :
      TickArc W e i s { s with
        rt.inst.state := .excised
        rt.dormantCount := s.rt.dormantCount + 1
        rt.circuitBroken := true
        rt.exciseReason := .breaker }
  | park (hst : s.rt.inst.state = .friction) (hspent : s.conf.maxRestarts ≤ s.rt.restartCount)
      (hwhy : s.flags.critical = true ∨ s.conf.noExcise = true ∨ s.rt.dormantCount < 4) :
      TickArc W e i s { s with rt.inst.state := .dormant, rt.dormantCount := s.rt.dormantCount + 1 }
  | wakeUp (hst : s.rt.inst.state = .dormant) :
      TickArc W e i s { s with rt.inst.state := .newProcess, rt.restartCount := s.rt.restartCount + 1 }
  | timerFire (hst : s.rt.inst.state = .perfect) (htimer : s.flags.timer = true) :
      TickArc W e i s { s with rt.inst.state := .newProcess }
  | card (hst : s.rt.inst.state = .newProcess) (hcard : s.rt.card.next < s.conf.cards.length) :
      TickArc W e i s { s with rt.card.next := s.rt.card.next + 1 }
  | cardFallback (hst : s.rt.inst.state = .newProcess) (hcard : s.rt.card.next < s.conf.cards.length) :
      TickArc W e i s { s with
        rt.card.next := s.rt.card.next + 1
        rt.card.fallbackLive := true
        rt.inst.state := .dormant
        rt.dormantCount := s.rt.dormantCount + 1 }

inductive OtherArc (e : Pid1) (j : Nat) (s : Service) : Service → Prop
  | fallbackUp (hname : serviceIsStandby e.services j = true) : OtherArc e j s s.fallbackUp
  | downStop (hup : s.rt.card.standbyUp = true) (hchild : s.rt.childPid ≠ 0) :
      OtherArc e j s { s with rt.card.standbyUp := false, flags.noRestart := true, rt.ctlKilled := true }
  | downExcise (hup : s.rt.card.standbyUp = true) (hchild : s.rt.childPid = 0) :
      OtherArc e j s { s with rt.card.standbyUp := false, flags.noRestart := true, rt.inst.state := .excised }

inductive StopArc (s : Service) : Service → Prop
  | bindStop (hbind : s.conf.bindName ≠ []) (hheld : s.rt.bind.held = false) (hchild : s.rt.childPid ≠ 0)
      (hctl : s.rt.ctlKilled = false ∨ s.flags.noRestart = false) :
      StopArc s { s with rt.bind.held := true, rt.bind.diedAt := .zero }

inductive BindArc (e : Pid1) (s : Service) : Service → Prop
  | release (hbind : s.conf.bindName = []) (hheld : s.rt.bind.held = true) :
      BindArc e s { s with rt.bind.held := false }
  | start (hheld : s.rt.bind.held = true) (hchild : s.rt.childPid = 0)
      (hst : s.conf.bindName ≠ [] ∨ s.rt.inst.state = .excised) :
      BindArc e s { s with rt.bind.held := false, rt.exciseReason := .none, rt.inst.state := .newProcess }
  | hold (hbind : s.conf.bindName ≠ []) (hheld : s.rt.bind.held = false) (hchild : s.rt.childPid = 0)
      (hst : s.rt.inst.state = .excised) (hbound : bindBound e.services s = none) :
      BindArc e s { s with rt.bind.held := true, rt.bind.diedAt := .zero }
  | excise (hbind : s.conf.bindName ≠ []) (hheld : s.rt.bind.held = false) (hchild : s.rt.childPid = 0)
      (hwhy : bindBound e.services s = none ∨ s.rt.inst.state = .newProcess) :
      BindArc e s { s with
        rt.bind.held := true, rt.bind.diedAt := .zero, rt.inst.state := .excised, rt.exciseReason := .bind }
  | reclassify (hbind : s.conf.bindName ≠ []) (hheld : s.rt.bind.held = false) (hchild : s.rt.childPid = 0)
      (hdied : s.rt.bind.diedAt.isSet = true) :
      BindArc e s { s with
        rt.restartCount := s.rt.bind.savedRestarts
        rt.dormantCount := s.rt.bind.savedDormant
        rt.bind.held := true
        rt.bind.diedAt := .zero
        rt.inst.state := .excised
        rt.exciseReason := .bind }

inductive MonitorArc (W : World → Prop) (s : Service) : Service → Prop
  | refresh (hage : LongRun W s) (hwait : s.rt.main.wait = true) : MonitorArc W s s.refreshed
  | retry (hwait : s.rt.main.wait = true) (hno : s.flags.noRestart = false) :
      MonitorArc W s { s with rt.main.wait := false, rt.inst.state := .recovery }
  | excise (hwait : s.rt.main.wait = true) (hno : s.flags.noRestart = true) :
      MonitorArc W s { s with rt.main.wait := false, rt.inst.state := .excised, rt.exciseReason := .mainPidTimeout }

inductive HearArc (s : Service) : Service → Prop
  | adopt (p : Nat) (hp : p ≠ 0) (hmain : s.flags.mainPidNotify = true)
      (hwhy : s.rt.main.wait = true ∨ (s.rt.main.pid ≠ 0 ∧ s.rt.childPid = s.rt.main.pid)) :
      HearArc s { s with rt.childPid := p, rt.main.pid := p, rt.main.wait := false }
  | remember (p : Nat) (hmain : s.flags.mainPidNotify = true) (hwait : s.rt.main.wait = false) :
      HearArc s { s with rt.main.pid := p }

inductive WakeArc (s : Service) : Service → Prop
  | wake (hst : s.rt.inst.state = .perfect) (hchild : s.rt.childPid = 0) (hopen : s.rt.listen.open_ ≠ 0) :
      WakeArc s { s with rt.inst.state := .newProcess, rt.listen.hold := false }

inductive CtlArc (e : Pid1) (i : Nat) (s : Service) : Service → Prop
  | start (hst : s.rt.inst.state = .excised ∨ s.rt.inst.state = .perfect) :
      CtlArc e i s { s.restartPolicyRestore with
        rt.listen.hold := false, rt.inst.state := .newProcess, rt.restartCount := 0 }
  | rearm (up : Bool) (hup : up = true → serviceIsStandby e.services i = true) :
      CtlArc e i s { (Service.breakerClear { s with rt.card.next := 0 }) with
        rt.exciseReason := .none, rt.bind.held := false, rt.card.standbyUp := s.rt.card.standbyUp || up }
  | restart (hchild : s.rt.childPid ≠ 0) :
      CtlArc e i s { s.restartPolicyRestore with rt.listen.hold := false, rt.ctlKilled := true }
  | restartIdle (hchild : s.rt.childPid = 0) (n : Int) (hn : 0 ≤ n) :
      CtlArc e i s { s.restartPolicyRestore with
        rt.listen.hold := false
        rt.fork.state := n
        rt.main.wait := false
        rt.inst.state := .newProcess
        rt.restartCount := 0 }
  | reset : CtlArc e i s { s with rt.restartCount := 0, rt.dormantCount := 0 }
  | resetAll : CtlArc e i s (Service.breakerClear
      { s with rt.restartCount := 0, rt.dormantCount := 0, rt.card.next := 0 })
  | policy : CtlArc e i s s.restartPolicyRestore
  | queue (hst : s.rt.inst.state = .excised ∨ s.rt.inst.state = .dormant ∨ s.rt.inst.state = .perfect) :
      CtlArc e i s { s with rt.inst.state := .newProcess }

inductive HaltArc (s : Service) : Service → Prop
  | stop (hchild : s.rt.childPid ≠ 0) :
      HaltArc s { s with
        flags.noRestart := true, rt.bind.held := false, rt.bind.diedAt := .zero, rt.ctlKilled := true }
  | stopIdle (hchild : s.rt.childPid = 0) (n : Int) (hn : 0 ≤ n) :
      HaltArc s { s with
        flags.noRestart := true
        rt.bind.held := false
        rt.bind.diedAt := .zero
        rt.fork.state := n
        rt.main.wait := false
        rt.inst.state := .excised
        rt.exciseReason := .none }

inductive PauseArc (s : Service) : Service → Prop
  | resume (t : Timespec) (hst : s.rt.inst.state = .fullTrust) (hchild : s.rt.childPid ≠ 0) :
      PauseArc s { s with rt.spawnTime := t }

inductive Kind where
  | help
  | exit
  | done
  | lost
  | tick
  | other
  | stop
  | bind
  | monitor
  | hear
  | wake
  | ctl
  | halt
  | pause
  | freeze
  | op
  | spawn
  deriving DecidableEq

def Kind.byOperator : Kind → Bool
  | .ctl | .halt => true
  | _ => false

/-- The arcs of a kind, for service `i` of `e` (whose own entry may be older than `s`), when
`W i` are the answers a refresh of its budget may be based on. -/
def Arc (W : Nat → World → Prop) (e : Pid1) (i : Nat) : Kind → Service → Service → Prop
  | .help, s, s' => HelpArc s s'
  | .exit, s, s' => ExitArc (W i) s s'
  | .done, s, s' => DoneArc s s'
  | .lost, s, s' => LostArc s s'
  | .tick, s, s' => TickArc (W i) e i s s'
  | .other, s, s' => OtherArc e i s s'
  | .stop, s, s' => StopArc s s'
  | .bind, s, s' => BindArc e s s'
  | .monitor, s, s' => MonitorArc (W i) s s'
  | .hear, s, s' => HearArc s s'
  | .wake, s, s' => WakeArc s s'
  | .ctl, s, s' => CtlArc e i s s'
  | .halt, s, s' => HaltArc s s'
  | .pause, s, s' => PauseArc s s'
  | .freeze, _, _ => False
  | .op, _, _ => False
  | .spawn, _, _ => False

/-! ## What no arc changes -/

/-- The configuration of a service, with the flags no function changes, and the indices
resolved from it. -/
def Service.static (s : Service) : Conf × Flags × List (Option Nat) × List (Option Nat) :=
  (s.conf, { s.flags with noRestart := false, timer := false }, s.depIdx, s.grpDepIdx)

@[simp] theorem Service.fallbackUp_keeps (s : Service) : s.fallbackUp.static = s.static ∧
    s.fallbackUp.rt.childPid = s.rt.childPid ∧ s.fallbackUp.rt.fork = s.rt.fork ∧ s.fallbackUp.rt.main = s.rt.main ∧
    s.fallbackUp.rt.bind = s.rt.bind ∧ s.fallbackUp.rt.ctlKilled = s.rt.ctlKilled ∧
    s.fallbackUp.rt.spawnTime = s.rt.spawnTime ∧ s.fallbackUp.rt.card.fallbackLive = s.rt.card.fallbackLive ∧
    s.fallbackUp.rt.card.standbyUp = true := by
  unfold Service.fallbackUp
  dsimp only
  split <;> exact ⟨rfl, rfl, rfl, rfl, rfl, rfl, rfl, rfl, rfl⟩

variable {W : Nat → World → Prop} {e : Pid1} {i : Nat} {k : Kind} {s s' : Service}

theorem Arc.static (h : Arc W e i k s s') : s'.static = s.static := by
  cases k with
  | help =>
    cases h with
    | quiet hq => exact (congrArg Service.static hq :)
    | tree => rfl
  | other =>
    cases h with
    | fallbackUp => exact s.fallbackUp_keeps.1
    | downStop => rfl
    | downExcise => rfl
  | _ => cases h <;> rfl

theorem Arc.running (h : Arc W e i k s s') (hk : k = .exit ∨ k = .done ∨ k = .lost) : s.rt.childPid ≠ 0 := by
  rcases hk with rfl | rfl | rfl
  · cases h <;> assumption
  · cases h <;> assumption
  · cases h <;> assumption

/-- A service without a bound that is not held has nothing to do with binding. -/
theorem Arc.unbound (h : Arc W e i k s s') (hname : s.conf.bindName = []) (hheld : s.rt.bind.held = false) :
    k ≠ .stop ∧ k ≠ .bind := by
  constructor
  · rintro rfl
    cases h with
    | bindStop hbind => exact hbind hname
  · rintro rfl
    cases h with
    | release _ hyes => simp [hheld] at hyes
    | start hyes => simp [hheld] at hyes
    | hold hbind => exact hbind hname
    | excise hbind => exact hbind hname
    | reclassify hbind => exact hbind hname

theorem Arc.unasked (h : Arc W e i k s s') (hname : serviceIsStandby e.services i = false)
    (hup : s.rt.card.standbyUp = false) : k ≠ .other := by
  rintro rfl
  cases h with
  | fallbackUp hstandby => simp [hname] at hstandby
  | downStop hyes => simp [hup] at hyes
  | downExcise hyes => simp [hup] at hyes

theorem SpawnArc.static (h : SpawnArc e s s') : s'.static = s.static := by
  cases h <;> rfl

end SchemaInit.Engine
