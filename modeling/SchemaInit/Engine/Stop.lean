/-
# `SchemaInit.Engine.Stop` — counters, cards, binders and the stop of a service

What a death costs (`restart_budget_refresh`, `park`, `engine_friction_verdict`), what
is tried before a retry (`play_card`, with the fallback service of the deck), and what
a stop does.  A stop goes to the service's binders first (`bind_stop_binders`), each of
which is stopped in the same way: `stop_main` and `bind_stop` call each other.  Every
`bind_stop` that goes on holds a binder that was not held, so the depth is at most the
number of services (`stopLoop_fuel`).
-/
import SchemaInit.Engine.Probe

namespace SchemaInit.Engine

/-! ## Counters -/

namespace Service

def restartBudgetRefresh (w : World) (s : Service) : Service :=
  if w.now.sec - s.rt.spawnTime.sec ≥ restartResetSecs then
    { s with rt.restartCount := 0, rt.card.next := 0, rt.card.fallbackLive := false }
  else s

def breakerClear (s : Service) : Service :=
  { s with
    rt.dormantCount := if s.rt.circuitBroken then 0 else s.rt.dormantCount
    rt.circuitBroken := false }

def parkDelay (n : UInt8) : Int :=
  let delay := Int.bmod (300 * 2 ^ ((n.toNat + 63) % 64)) (2 ^ 64)
  if delay > 3600 then 3600 else delay

def park (w : World) (s : Service) : Service :=
  let n := s.rt.dormantCount + 1
  { s with
    rt.dormantCount := n
    rt.dormantUntil := ⟨w.now.sec + parkDelay n, w.now.nsec⟩
    rt.inst.state := .dormant }

def frictionVerdict (w : World) (s : Service) : Service :=
  if !s.flags.critical && !s.conf.noExcise && s.rt.dormantCount ≥ 4 then
    { s with rt.dormantCount := s.rt.dormantCount + 1, rt.circuitBroken := true, rt.exciseReason := .breaker }
  else s.park w

def exciseReasonFromExit (s : Service) : Exc :=
  if s.rt.ctlKilled then .none
  else if s.rt.exit.termSignal ≠ 0 then if s.rt.exit.coreDumped then .coreDump else .signal
  else if s.rt.exit.hasExited && s.rt.exit.status ≠ 0 then .exitCode else .none

def restartPolicyRestore (s : Service) : Service :=
  { s with flags.noRestart := s.conf.noRestartCfg }

def fallbackUp (s : Service) : Service :=
  let s := { s with rt.card.standbyUp := true, flags.noRestart := false }
  if s.rt.childPid = 0 && (s.rt.inst.state = .excised || s.rt.inst.state = .perfect) then
    breakerClear { s with rt.inst.state := .newProcess, rt.restartCount := 0 }
  else s

def isUp (s : Service) : Bool :=
  s.rt.inst.state.stable || (s.rt.listen.open_ ≠ 0 && (s.rt.inst.state = .newProcess || s.rt.inst.state = .fullTrust))

def stopGraceMs (s : Service) : Int :=
  if s.conf.stopTimeoutSec ≠ 0 then s.conf.stopTimeoutSec * 1000 else shutGraceMs

end Service

/-! ## Binders -/

/-- `bind_bound`: the first dependency slot with the `bind=` name, unless it is unresolved
or a timer or oneshot. -/
def bindBound (table : List Service) (s : Service) : Option Nat :=
  if s.conf.bindName.isEmpty then none
  else
    match (List.range (min s.depSlots maxDeps)).find? fun k => s.conf.depName.getD k [] = s.conf.bindName with
    | none => none
    | some k =>
      match s.depIdx.getD k none with
      | none => none
      | some b =>
        match table[b]? with
        | none => none
        | some t => if t.flags.timer || t.flags.oneshot then none else some b

/-- `bind_hold`: the hold remembers the bound's run that was last seen up. -/
def Service.bindHold (table : List Service) (b : Service) : Service :=
  { b with
    rt.bind.heldSince :=
      if b.rt.bind.held then b.rt.bind.heldSince
      else
        match bindBound table b with
        | some t => (table.getD t default).rt.bind.seenSpawn
        | none => .zero
    rt.bind.held := true
    rt.bind.diedAt := .zero }

/-! ## Stopping -/

namespace Loc

/-- The runner `stop_cmds_begin` starts, if there is something to run and none runs. -/
def stopRunner (w : World) (i phase : Nat) (s : Service) : Option Nat :=
  let n := (if phase % 2 = 1 then s.conf.execStopCount else 0) + if phase / 2 % 2 = 1
    then s.conf.execStopPostCount else 0
  if n = 0 || s.rt.stop.pid > 0 then none else w.stopFork i

def stopCmdsBegin (w : World) (i phase : Nat) (l : Loc) : Loc :=
  match stopRunner w i phase l.svc with
  | none => l
  | some pid => { l with svc.rt.stop := { pid := pid, phase := phase, start := w.now } }

/-- `stop_main` for the service itself: its `exec_stop` commands, else a SIGTERM. -/
def stopOwn (w : World) (i : Nat) (l : Loc) : Loc :=
  let s := l.svc
  if s.rt.stop.pid > 0 && s.rt.stop.phase = 1 then l
  else if (stopRunner w i 1 s).isSome then l.stopCmdsBegin w i 1
  else l.signal s.rt.childPid .term

def stopCmdsDone (w : World) (i : Nat) (l : Loc) : Loc :=
  let phase := l.svc.rt.stop.phase
  let l := { l with svc.rt.stop.pid := 0, svc.rt.stop.phase := 0 }
  if phase % 4 ≠ 1 then l
  else if l.svc.rt.childPid > 0 then if phase / 4 % 2 = 0 then l.signal l.svc.rt.childPid .term else l
  -- the main process went first: its post commands were held for this runner
  else l.stopCmdsBegin w i 2

def ctlWaitAbort (w : World) (i : Nat) (l : Loc) : Loc :=
  let s := l.svc
  if s.rt.fork.state ≥ 0 && !s.rt.main.wait then l
  else
    let l := { l.killTree with svc.rt.fork.state := 0, svc.rt.main.wait := false }
    if s.rt.main.wait then l.stopCmdsBegin w i 2 else l

def startFailsafe (w : World) (l : Loc) : Loc :=
  if l.svc.conf.failsafeCmd.isEmpty || l.svc.rt.failsafePid > 0 then l
  else
    match w.failsafeFork with
    | none => l
    | some pid => { l with svc.rt.failsafePid := pid, svc.rt.failsafeStart := w.now }

end Loc

namespace Pid1

def bindStop (stop : Nat → Pid1 → Pid1) (j : Nat) (e : Pid1) : Pid1 :=
  let b := e.at_ j
  if b.rt.bind.held || b.rt.childPid = 0 then e
  -- being stopped on purpose already: its bound's return must not start it
  else if b.rt.ctlKilled && b.flags.noRestart then e
  else stop j (e.mod j fun b => { b.bindHold e.services with rt.restartAt := .zero })

def bindStopBinders (stop : Nat → Pid1 → Pid1) (i : Nat) (e : Pid1) : Pid1 :=
  (List.range e.count).foldl
    (fun e j => if j ≠ i && bindBound e.services (e.at_ j) = some i then bindStop stop j e else e) e

/-- A service is stopped after those that are bound to it. -/
def stopLoop (w : World) : Nat → Nat → Pid1 → Pid1
  | 0, _, e => e
  | fuel + 1, i, e =>
    if (e.at_ i).rt.childPid = 0 then e
    else (bindStopBinders (stopLoop w fuel) i e).on w i (Loc.stopOwn w i)

def stopMain (w : World) (i : Nat) (e : Pid1) : Pid1 :=
  stopLoop w (e.count + 1) i e

/-! ## Cards and fallbacks -/

def fallbackDown (w : World) (j : Nat) (e : Pid1) : Pid1 :=
  let s := e.at_ j
  if !s.rt.card.standbyUp then e
  else if s.rt.childPid > 0 then
    stopMain w j (e.mod j fun s => { s with rt.card.standbyUp := false, flags.noRestart := true, rt.ctlKilled := true })
  else e.mod j fun s => { s with rt.card.standbyUp := false, flags.noRestart := true, rt.inst.state := .excised }

/-- Take down the fallback of service `i`, if it is live and in the table. -/
def fallbackDownOf (w : World) (i : Nat) (e : Pid1) : Pid1 :=
  if (e.at_ i).rt.card.fallbackLive then
    match serviceFallback e.services i with
    | none => e
    | some j => fallbackDown w j e
  else e

def ctlRearm (w : World) (i : Nat) (start : Bool) (e : Pid1) : Pid1 :=
  fallbackDownOf w i (e.mod i fun s =>
    let s := Service.breakerClear { s with rt.card.next := 0 }
    { s with
      rt.exciseReason := .none
      rt.bind.held := false
      rt.restartAt := .zero
      rt.card.standbyUp := s.rt.card.standbyUp || (start && serviceIsStandby e.services i) })

/-- The next card of the deck is tried before a retry. -/
def playCard (w : World) (i : Nat) (e : Pid1) : Pid1 :=
  let s := e.at_ i
  if s.rt.card.pid > 0 then e
  else
    match s.conf.cards[s.rt.card.next]? with
    | none => e
    | some (.fallback _) =>
      match serviceFallback e.services i with
      | none => e.mod i fun s => { s with rt.card.next := s.rt.card.next + 1 }
      | some j =>
        let e := e.mod i fun s => { s with rt.card.next := s.rt.card.next + 1, rt.card.fallbackLive := true }
        (e.mod j Service.fallbackUp).mod i (Service.park w)
    | some (.exec _) =>
      e.mod i fun s =>
        { s with
          rt.card.next := s.rt.card.next + 1
          rt.card.pid := w.cardFork.getD s.rt.card.pid
          rt.card.start := if w.cardFork.isSome then w.now else s.rt.card.start }

end Pid1

end SchemaInit.Engine
