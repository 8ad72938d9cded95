/-
# `SchemaInit.Engine.Service` — what PID 1 knows about a service

`service_t` has two halves, the configuration and the runtime half.  A reload and
a re-exec carry the runtime half and nothing else, but for the `SVC_NO_RESTART`
flag, which `schema-ctl stop` sets to hold a service down.  The few fields outside
both halves (the inotify watch, the poll counter, the resolved indices) are recomputed.

Keys that only the child process or a log line reads (environment, limits,
capabilities, namespaces) are not part of the model.
-/
import SchemaInit.Lib.CStr
import SchemaInit.Engine.Schema

namespace SchemaInit.Engine

/-! ## Times -/

structure Timespec where
  sec : Int
  nsec : Int
  deriving DecidableEq, Inhabited

namespace Timespec

def zero : Timespec := ⟨0, 0⟩

def isSet (t : Timespec) : Bool :=
  t.sec ≠ 0 || t.nsec ≠ 0

def after (a b : Timespec) : Bool :=
  a.sec > b.sec || (a.sec == b.sec && a.nsec > b.nsec)

def addSec (t : Timespec) (n : Int) : Timespec :=
  { t with sec := t.sec + n }

end Timespec

/-! ## Limits and defaults -/

def maxServices : Nat := 128
def maxGroups : Nat := 16
def maxMembers : Nat := 8
def maxDeps : Nat := 8
def maxCards : Nat := 4
def maxEvictions : Nat := 16
def restartResetSecs : Int := 300
def cooldownSecs : Int := 5
def memMinKb : Int := 8192
def cardTimeoutSecs : Int := 30
def pidFileWaitSecs : Int := 5
def mainpidWaitSecs : Int := 10
def listenMinRunSecs : Int := 2
def bindGraceMs : Int := 2000
def shutGraceMs : Int := 3000
def busNameWaitSecs : Int := 90

/-! ## Configuration -/

structure Flags where
  oneshot : Bool := false
  needsRoot : Bool := false
  critical : Bool := false
  noRestart : Bool := false
  timer : Bool := false
  timerCalendar : Bool := false
  timerPersist : Bool := false
  stopFirst : Bool := false
  mainPidNotify : Bool := false
  deriving DecidableEq, Inhabited

inductive Prio where
  | peripheral
  | standard
  | critical
  deriving DecidableEq

inductive Card where
  | exec (cmd : Bytes)
  | fallback (name : Bytes)
  deriving DecidableEq

/-- What the `.svc` file says, but for the flag word. -/
structure Conf where
  name : Bytes
  exec : Bytes
  args : List Bytes := []
  execStopCount : Nat := 0
  execStopPostCount : Nat := 0
  cards : List Card := []
  listen : List Bytes := []
  listenLazy : Bool := false
  cond : List Bytes := []
  depName : List Bytes := []
  maxRestarts : Int := 5
  stableSecs : Int := 10
  readyPath : Bytes := []
  pidFile : Bytes := []
  verifyMemoryMax : Bytes := []
  verifyCpuMax : Bytes := []
  verifyPidsMax : Bytes := []
  waitSocket : Bytes := []
  priority : Prio := .standard
  fuse : Bool := false
  failsafeCmd : Bytes := []
  failsafeTimeoutMs : Int := 0
  readyPollHz : Int := 0
  notify : Bool := false
  fdstoreMax : Int := 0
  readyBusName : Bytes := []
  noExcise : Bool := false
  watchdogSec : Int := 0
  allowedSlotMin : Int := -1
  allowedSlotMax : Int := -1
  contentHash : Nat := 0
  restartSec : Int := 0
  noRestartCfg : Bool := false
  bindName : Bytes := []
  startTimeoutSec : Int := -1
  stopTimeoutSec : Int := 0
  timerBootSec : Int := 0
  timerIntervalSec : Int := 0
  deriving DecidableEq, Inhabited

/-! ## Runtime fields -/

inductive Exc where
  | none
  | breaker
  | startTimeout
  | mainPidTimeout
  | exitCode
  | signal
  | coreDump
  | readinessLost
  | noCgroup
  | listenFail
  | fuse
  | probe
  | bind
  deriving DecidableEq

/-- `READY_*`: what proved a service ready; `none` is the 0 of a field not set yet. -/
inductive Ready where
  | none
  | notify
  | bus
  | path
  | timer
  | exit
  | pidfile
  | socket
  | condition
  deriving DecidableEq

structure BindRt where
  held : Bool := false
  wasUp : Bool := false
  seenSpawn : Timespec := .zero
  heldSince : Timespec := .zero
  diedAt : Timespec := .zero
  savedRestarts : Int := 0
  savedDormant : UInt8 := 0
  deriving DecidableEq

structure ExitRt where
  status : Int := 0
  termSignal : Int := 0
  coreDumped : Bool := false
  hasExited : Bool := false
  deriving DecidableEq

structure WatchdogRt where
  lastPet : Timespec := .zero
  armedSec : Int := 0
  abortAt : Timespec := .zero
  deriving DecidableEq

/-- Readiness: `ready_path`, the file a previous run left there, and `READY=1`. -/
structure ReadyRt where
  pathVerified : Bool := false
  staleDev : Nat := 0
  staleIno : Nat := 0
  staleCtime : Timespec := .zero
  notifyReady : Bool := false
  notifyStatus : Bytes := []
  deriving DecidableEq

structure StopRt where
  pid : Nat := 0
  phase : Nat := 0
  start : Timespec := .zero
  deriving DecidableEq

structure MainRt where
  pid : Nat := 0
  wait : Bool := false
  waitDue : Timespec := .zero
  deriving DecidableEq

structure CardRt where
  next : Nat := 0
  pid : Nat := 0
  start : Timespec := .zero
  fallbackLive : Bool := false
  standbyUp : Bool := false
  deriving DecidableEq

structure ListenRt where
  hold : Bool := false
  open_ : Nat := 0
  fds : List Int := [0, 0, 0, 0]
  deriving DecidableEq

/-- `pid_file`: `state` is 0 while the launcher runs, 1 once the daemon is adopted,
-1 while the file is waited for. -/
structure ForkRt where
  state : Int := 0
  wait : Timespec := .zero
  deriving DecidableEq

structure BootRt where
  spawn : Timespec := .zero
  ready : Timespec := .zero
  how : Ready := .none
  deriving DecidableEq

/-- What the running PID 1 learned: exactly the list `SVC_RUNTIME_FIELDS` of `reexec_state.h`, grouped
by what the fields belong to. -/
structure Rt where
  childPid : Nat := 0
  inst : Inst
  restartCount : Int := 0
  dormantCount : UInt8 := 0
  circuitBroken : Bool := false
  exciseReason : Exc := .none
  bind : BindRt := {}
  dormantUntil : Timespec := .zero
  restartAt : Timespec := .zero
  lastStart : Int := 0
  startTime : Int := 0
  stableTime : Timespec := .zero
  failsafePid : Nat := 0
  failsafeStart : Timespec := .zero
  watchdog : WatchdogRt := {}
  ready : ReadyRt := {}
  ctlKilled : Bool := false
  exit : ExitRt := {}
  timerNext : Timespec := .zero
  timerCatchupWait : Bool := false
  spawnTime : Timespec := .zero
  boot : BootRt := {}
  cgroupPath : Bytes := []
  isFrozen : Bool := false
  fork : ForkRt := {}
  listen : ListenRt := {}
  card : CardRt := {}
  stop : StopRt := {}
  main : MainRt := {}
  deriving DecidableEq, Inhabited

/-- `service_t`.  `depIdx` and `grpDepIdx` have one slot per dependency slot. -/
structure Service where
  conf : Conf
  flags : Flags
  rt : Rt
  depIdx : List (Option Nat) := []
  grpDepIdx : List (Option Nat) := []
  readyWatched : Int := 0
  readyCheckTicks : Int := 0
  sockWaiting : Bool := false
  mainRejected : Nat := 0
  deriving DecidableEq, Inhabited

namespace Service

/-- `svc_init_defaults` and the `listen_hold` of a `listen_lazy` line, for a file
that parsed to `conf` and `flags`. -/
def fresh (conf : Conf) (flags : Flags) : Service where
  conf := conf
  flags := flags
  rt := { inst := schemaInstanceInit 0 .perfect, listen := { hold := conf.listenLazy } }
  depIdx := List.replicate maxDeps none
  grpDepIdx := List.replicate maxDeps none

def verifiesLimits (s : Service) : Bool :=
  !s.conf.verifyMemoryMax.isEmpty || !s.conf.verifyCpuMax.isEmpty || !s.conf.verifyPidsMax.isEmpty

/-- `service_listen_waiting`: PID 1 holds the sockets and a connection starts it. -/
def listenWaiting (s : Service) : Bool :=
  s.rt.listen.open_ ≠ 0 && s.rt.childPid = 0 && s.rt.inst.state = .perfect

/-! ## The retry hold -/

def holdRetry (s : Service) (now : Timespec) : Service :=
  { s with
    rt.restartAt :=
      if s.conf.restartSec > 0 then ⟨now.sec + s.conf.restartSec, now.nsec⟩ else ⟨0, 0⟩ }

def retryHeld (s : Service) (now : Timespec) : Bool :=
  s.rt.restartAt.sec ≠ 0 &&
    (now.sec < s.rt.restartAt.sec || (now.sec = s.rt.restartAt.sec && now.nsec < s.rt.restartAt.nsec))

def clampHold (s : Service) (now : Timespec) : Service :=
  if !s.retryHeld now then s
  else if s.conf.restartSec ≤ 0 || s.rt.restartAt.sec > now.sec + s.conf.restartSec then s.holdRetry now
  else s

/-! ## What a reload carries -/

def runtimeCopy (dst src : Service) : Service :=
  { dst with rt := src.rt, flags.noRestart := src.flags.noRestart }

def carryTimerDone (s : Service) (liveDone : Bool) : Service :=
  if liveDone && s.flags.timer && !s.flags.timerCalendar && s.conf.timerIntervalSec ≤ 0 then
    { s with flags.timer := false }
  else s

end Service

end SchemaInit.Engine
