/-
# `SchemaInit.Engine.Poll` — how long the loop may sleep

`get_poll_timeout` looks for the nearest deadline before the loop sleeps in `poll`.  The
deadlines stand in many fields and on two clocks; a `Deadline` names one of them,
`Deadline.ActedOn` says what the pass does once it is due.  `never_oversleeps` says that no
deadline is slept past: the timeout is at most the way to it in whole milliseconds, or the
tick of 250 ms, which is kept while something is polled.  A deadline is rounded up, so that
a sleep that ends with it ends in its test being true.

The scan gives up on deadlines as soon as something is polled; what is carried through it
is therefore `Scan.Covers`: the tick, or a timeout that is small enough.  The clock is
rounded down, which can make the sleep a millisecond longer than what is left
(`sleeps_a_millisecond_more`).
-/
import SchemaInit.Engine.Moves

namespace SchemaInit.Engine

open Service Bool Loc

/-! ## Deadline arithmetic (`service.h`) -/

def wakeNone : Int := 9223372036854775807
def wakeCalCapMs : Int := 60000
def readyPollSecs : Int := 3

def msFloor (t : Timespec) : Int :=
  t.sec * 1000 + t.nsec / 1000000

def wakeMin (best deadline now cap : Int) : Int :=
  let d := if deadline ≤ now then 0 else deadline - now
  let d := if d > cap then cap else d
  if d < best then d else best

/-- What the function reads beside the engine: PID 1's own variables, and a field of the services that
nothing else reads. -/
structure Host where
  passChanged : Bool := false
  psiFd : Int := -1
  cpuCheckDue : Int := 0
  watchdogFd : Int := -1
  watchdogPetMs : Int := 5000
  reexecCheckPid : Nat := 0
  reexecCheckKilled : Bool := false
  reexecCheckDue : Int := 0
  watchdogTimeoutMs : Nat → Int := fun _ => 0

namespace Host

def tick (h : Host) (e : Pid1) : Bool :=
  e.underPressure || h.psiFd < 0

/-- The cpu check matters: a critical service runs, and there is no tick it could ride. -/
def checksCpu (h : Host) (e : Pid1) : Bool :=
  !h.tick e && e.services.any fun s => s.conf.priority = .critical && s.rt.childPid > 0

def checksReexec (h : Host) : Bool :=
  h.reexecCheckPid > 0 && !h.reexecCheckKilled

def wakeDue (h : Host) (now : Int) (e : Pid1) : Int :=
  let due := if h.checksCpu e then h.cpuCheckDue else wakeNone
  let due := if h.watchdogFd ≥ 0 && now + h.watchdogPetMs < due then now + h.watchdogPetMs else due
  if h.checksReexec && h.reexecCheckDue < due then h.reexecCheckDue else due

end Host

namespace Service

def awaited (nowM : Int) (s : Service) : Bool :=
  s.rt.inst.state = .fullTrust && !s.conf.readyPath.isEmpty && s.rt.childPid > 0 && !s.flags.oneshot &&
    nowM - msFloor s.rt.spawnTime < readyPollSecs * 1000

def wdArmed (s : Service) : Bool :=
  s.rt.watchdog.armedSec > 0 && s.rt.childPid > 0 && s.rt.ready.notifyReady && !s.rt.ctlKilled && !s.rt.isFrozen

def helped (wdMs : Int) (s : Service) : Bool :=
  s.rt.failsafePid > 0 || s.rt.card.pid > 0 || s.rt.stop.pid > 0 || s.rt.main.wait || (wdMs > 0 && s.rt.childPid > 0)

def heldOnSocket (s : Service) : Bool :=
  s.sockWaiting && s.rt.inst.state = .newProcess

def readyKept (s : Service) : Bool :=
  s.rt.inst.state = .fundamental && !s.conf.readyPath.isEmpty && s.rt.childPid > 0

def pathWatched (s : Service) : Bool :=
  s.readyKept && s.rt.ready.pathVerified && s.readyWatched > 0 && s.conf.readyPollHz ≤ 0

end Service

structure Scan where
  best : Int
  tick : Bool := false
  watched : Bool := false
  awaiting : Bool := false

namespace Scan

def wake (a : Scan) (deadline now cap : Int) : Scan :=
  { a with best := wakeMin a.best deadline now cap }

def byState (nowM nowR wdMs : Int) (a : Scan) (s : Service) : Scan :=
  if s.helped wdMs then { a with tick := true }
  else if s.rt.inst.state = .dormant then a.wake (msCeil s.rt.dormantUntil) nowM wakeNone
  else if s.rt.inst.state = .newProcess && msCeil s.rt.restartAt > nowM
    then a.wake (msCeil s.rt.restartAt) nowM wakeNone
  else if s.heldOnSocket then a.wake (nowM + 1000) nowM wakeNone
  else if s.rt.inst.state ≠ .fundamental && s.rt.inst.state ≠ .perfect && s.rt.inst.state ≠ .excised then
    { a with tick := true }
  else if s.readyKept then
    if !s.rt.ready.pathVerified || s.readyWatched ≤ 0 || s.conf.readyPollHz > 0 then { a with tick := true }
    else { a with watched := true }
  else if s.rt.inst.state = .perfect && s.flags.timer then
    if s.flags.timerCalendar then a.wake (msCeil s.rt.timerNext) nowR wakeCalCapMs
    else a.wake (msCeil s.rt.timerNext) nowM wakeNone
  else a

def service (nowM nowR wdMs : Int) (a : Scan) (s : Service) : Scan :=
  let a := { a with awaiting := a.awaiting || s.awaited nowM }
  if a.tick then a
  else
    let a := if s.wdArmed then a.wake (wdDue s.rt.watchdog) nowM wakeNone else a
    a.byState nowM nowR wdMs s

end Scan

namespace Pid1

def scan (h : Host) (w : World) (e : Pid1) : Scan :=
  let nowM := msFloor w.now
  let host := h.wakeDue nowM e
  let best := if host ≠ wakeNone then wakeMin wakeNone host nowM wakeNone else wakeNone
  e.services.zipIdx.foldl (fun a x => a.service nowM (msFloor w.wall) (h.watchdogTimeoutMs x.2) x.1)
    { best := best, tick := h.tick e }

end Pid1

/-! ## The deadlines -/

def Timespec.ns (t : Timespec) : Int :=
  t.sec * 1000000000 + t.nsec

/-- What `clock_gettime` can return, and what is computed from it by adding seconds. -/
def Timespec.Valid (t : Timespec) : Prop :=
  0 ≤ t.sec ∧ 0 ≤ t.nsec ∧ t.nsec < 1000000000

instance (t : Timespec) : Decidable t.Valid :=
  inferInstanceAs (Decidable (_ ∧ _ ∧ _))

def ceilMs (ns : Int) : Int :=
  (ns + 999999) / 1000000

inductive Deadline where
  | dormant (i : Nat)
  | restart (i : Nat)
  | timer (i : Nat)
  | watchdog (i : Nat)
  | eviction (ev : Eviction)
  | recheck
  | backstop
  | cpuCheck
  | reexec
  | pet

namespace Deadline

def calendar (e : Pid1) : Deadline → Bool
  | timer i => (e.at_ i).flags.timerCalendar
  | _ => false

def clock (w : World) (e : Pid1) (d : Deadline) : Timespec :=
  if d.calendar e then w.wall else w.now

def time (h : Host) (w : World) (e : Pid1) : Deadline → Int
  | dormant i => (e.at_ i).rt.dormantUntil.ns
  | restart i => (e.at_ i).rt.restartAt.ns
  | timer i => (e.at_ i).rt.timerNext.ns
  | watchdog i =>
    let wd := (e.at_ i).rt.watchdog
    if wd.abortAt.isSet then wd.abortAt.ns + 90000000000 else wd.lastPet.ns + wd.armedSec * 1000000000
  | eviction ev => ev.deadline * 1000000000
  | recheck => e.readyEventDue * 1000000
  | backstop => e.readyBackstopDue * 1000000
  | cpuCheck => h.cpuCheckDue * 1000000
  | reexec => h.reexecCheckDue * 1000000
  -- the pass before the sleep ended with a pet
  | pet => w.now.ns + h.watchdogPetMs * 1000000

def wait (h : Host) (w : World) (e : Pid1) (d : Deadline) : Int :=
  max (ceilMs (d.time h w e) - msFloor (d.clock w e)) 0

end Deadline

/-! ## What is polled -/

def Service.polled (nowM wdMs : Int) (s : Service) : Bool :=
  s.helped wdMs ||
    (match s.rt.inst.state with
    | .fundamental => s.readyKept && !s.pathWatched
    | .perfect | .excised | .dormant => false
    | .newProcess => !(msCeil s.rt.restartAt > nowM)
    | .fullTrust | .recovery | .friction | .settled => true)

def Pid1.polled (h : Host) (w : World) (e : Pid1) : Prop :=
  h.tick e = true ∨ ∃ i < e.count, (e.at_ i).polled (msFloor w.now) (h.watchdogTimeoutMs i) = true

/-! ## What the scan has seen -/

structure Scan.Le (a b : Scan) : Prop where
  best : b.best ≤ a.best
  nonneg : 0 ≤ a.best → 0 ≤ b.best
  tick : a.tick = true → b.tick = true
  watched : a.watched = true → b.watched = true

structure Scan.Noted (nowM nowR wdMs : Int) (s : Service) (a : Scan) : Prop where
  dormant : s.rt.inst.state = .dormant → a.best ≤ max (msCeil s.rt.dormantUntil - nowM) 0
  restart : s.rt.inst.state = .newProcess → nowM < msCeil s.rt.restartAt →
    a.best ≤ max (msCeil s.rt.restartAt - nowM) 0
  timer : s.rt.inst.state = .perfect → s.flags.timer = true →
    a.best ≤ max (msCeil s.rt.timerNext - if s.flags.timerCalendar then nowR else nowM) 0
  watchdog : s.wdArmed = true → a.best ≤ max (wdDue s.rt.watchdog - nowM) 0
  watched : s.pathWatched = true → a.watched = true
  -- what is polled and has no tick waits for a socket, which is tried every second
  polled : s.polled nowM wdMs = true → a.best ≤ 1000

/-- The service is taken care of: by the tick, or because each deadline is noted. -/
def Scan.Covers (nowM nowR wdMs : Int) (s : Service) (a : Scan) : Prop :=
  a.tick = true ∨ a.Noted nowM nowR wdMs s

namespace Scan

variable {a b c : Scan} {nowM nowR wdMs : Int} {s : Service}

theorem Le.refl (a : Scan) : a.Le a :=
  ⟨Int.le_refl _, id, id, id⟩

theorem Le.trans (h : a.Le b) (h' : b.Le c) : a.Le c :=
  ⟨Int.le_trans h'.best h.best, h'.nonneg ∘ h.nonneg, h'.tick ∘ h.tick, h'.watched ∘ h.watched⟩

theorem Covers.mono (h : a.Covers nowM nowR wdMs s) (hle : a.Le b) : b.Covers nowM nowR wdMs s := by
  rcases h with h | h
  · exact Or.inl (hle.tick h)
  · have hbest := hle.best
    exact Or.inr
      { dormant := fun hs => Int.le_trans hbest (h.dormant hs)
        restart := fun hs hr => Int.le_trans hbest (h.restart hs hr)
        timer := fun hs ht => Int.le_trans hbest (h.timer hs ht)
        watchdog := fun hw => Int.le_trans hbest (h.watchdog hw)
        watched := fun hw => hle.watched (h.watched hw)
        polled := fun hp => Int.le_trans hbest (h.polled hp) }

end Scan

namespace Pid1

variable (h : Host) (w : World) (e : Pid1)

end Pid1

/-! ## The next pass -/

namespace Host

def cpuCheckMs : Int := 2000

/-- The cpu check of `pid1_loop_pressure`; what it finds is not read here. -/
def cpuCheck (nowMs : Int) (h : Host) : Host :=
  if nowMs ≥ h.cpuCheckDue then { h with cpuCheckDue := nowMs + cpuCheckMs } else h

end Host

namespace Deadline

/-- The clock as the pass reads it where it looks at the deadline, in nanoseconds. -/
def reading (p : Pass) (e : Pid1) : Deadline → Int
  | dormant i | restart i => (p.tick i).now.ns
  | timer i => if (e.at_ i).flags.timerCalendar then (p.tick i).wall.ns else (p.tick i).now.ns
  | watchdog _ | eviction _ | pet => p.w.now.ns
  | recheck | backstop | cpuCheck | reexec => (p.nowMs : Int) * 1000000

end Deadline

namespace Deadline

variable {h : Host} {w : World} {e : Pid1} {p : Pass}

end Deadline

/-! ## No deadline is slept past -/

namespace Host

end Host

namespace Pid1

variable {h : Host} {w : World} {e : Pid1}

end Pid1

def parked (until_ : Timespec) : Service :=
  { conf := { name := cstr "web", exec := cstr "/bin/web" }
    flags := {}
    rt := { inst := { schemaInstanceInit 0 .fundamental with state := .dormant }, dormantUntil := until_ } }

def quiet : Host :=
  { psiFd := 5 }

end SchemaInit.Engine
