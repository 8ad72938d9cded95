/-
# `SchemaInit.FdClose.Model` — PID 1's detached closers (`fdclose.h`)

PID 1 never closes a descriptor somebody else sent it: `close` of one can
block for as long as its maker likes.  It clones a child that shares the
descriptor table (`CLONE_FILES`) and lets the child wait.  At most
`maxInflight` closers hold one descriptor each; what arrives beyond that is
parked, and one overflow closer takes the whole parked list.

A closer process is a script of numbers still to close; `move` lets one closer
do its next thing:

    not yet in close()   →  take the next number out of the table, block
    blocked in close()   →  return from it
    nothing left         →  exit, stay as a zombie
    killed               →  die where it is

`close()` removes the number from the table before it blocks, so `inClose`
means that the number is already free.

**What is ghost.**  Each descriptor ever opened gets a fresh file id, so that
a reused number can be told from the descriptor that had it before.  `handed`
lists the ids given to `fd_close_detached`, `closes` every `close()` made on
their behalf with what was found at that number, and each entry of `ovfFds`
remembers the id behind its number.  No function of the source reads them.
-/
import SchemaInit.Lib.FdTable
import SchemaInit.Lib.KeyedList
import SchemaInit.Lib.Run

namespace SchemaInit.FdClose

open KeyedList

def maxInflight : Nat := 32
def parkMax : Nat := 4096
def parkPause : Nat := 1024
def msgFds : Nat := 253

/-- A closer as PID 1 remembers it: `fdclose_pids`, `fdclose_from_pid`, `fdclose_from_uid`. -/
structure Track where
  pid : Nat
  fromPid : Int
  fromUid : Int

structure Proc where
  pid : Nat
  /-- the numbers it has not reached -/
  todo : List Int
  inClose : Bool
  killed : Bool
  exited : Bool

/-- PID 1's own memory (`tracked`, `ovf`, `parked`, `ovfFds`, …, under the names of the source without
the `fdclose_` prefix) and what the kernel holds: the shared descriptor table and the closer
processes that have not been waited for. -/
structure State where
  /-- the table PID 1 shares with its closers -/
  table : FdTable Nat
  procs : List Proc
  nextPid : Nat
  nextFile : Nat
  tracked : List Track
  ovf : Option Nat
  parked : List Int
  parkPid : Int
  parkUid : Int
  ovfFds : List (Int × Option Nat)
  sock : Int
  shut : Bool
  senderPid : Int
  senderUid : Int
  /-- the kernel knows `SO_PASSRIGHTS` -/
  hasPassrights : Bool
  /-- `reexec_commit` is between a quiesce that returned 0 and its resume -/
  committing : Bool
  handed : List Nat
  closes : List (Int × Option Nat)

def State.init (hasPassrights : Bool) : State where
  table := FdTable.empty parkMax
  procs := []
  nextPid := 1
  nextFile := 0
  tracked := []
  ovf := none
  parked := []
  parkPid := 0
  parkUid := 0
  ovfFds := []
  sock := -1
  shut := false
  senderPid := 0
  senderUid := -1
  hasPassrights := hasPassrights
  committing := false
  handed := []
  closes := []

/-! ## The shared table -/

def close (s : State) (fd : Int) : State :=
  { s with table := s.table.close fd, closes := s.closes ++ [(fd, s.table.get fd)] }

def openFd (s : State) : State :=
  match s.table.alloc s.nextFile with
  | none => s
  | some (_, t) => { s with table := t, nextFile := s.nextFile + 1 }

/-! ## Closer processes -/

def updProc (s : State) (pid : Nat) (f : Proc → Proc) : State :=
  { s with procs := update Proc.pid pid f s.procs }

def move (s : State) (pid : Nat) : State :=
  match lookup Proc.pid pid s.procs with
  | none => s
  | some p =>
    if p.exited then s
    else if p.killed then updProc s pid (fun p => { p with exited := true })
    else if p.inClose then updProc s pid (fun p => { p with inClose := false })
    else
      match p.todo with
      | [] => updProc s pid (fun p => { p with exited := true })
      | fd :: rest => close (updProc s pid (fun p => { p with todo := rest, inClose := true })) fd

/-- `clone(CLONE_FILES | SIGCHLD)`: the child will close the numbers in `todo`. -/
def clone (s : State) (todo : List Int) : State :=
  { s with
    procs := s.procs ++ [{ pid := s.nextPid, todo := todo, inClose := false, killed := false, exited := false }]
    nextPid := s.nextPid + 1 }

/-! ## PID 1's bookkeeping -/

def perfd (s : State) : Nat :=
  s.tracked.length - (if s.ovf.isSome then 1 else 0)

def passrights (s : State) (on : Bool) : State :=
  if s.sock < 0 ∨ s.shut = !on then s
  else if s.hasPassrights then { s with shut := !on }
  else s

/-- `fdclose_full`: the state after it, and whether the caller must stop reading. -/
def full (s : State) : State × Bool :=
  if perfd s < maxInflight then (s, false)
  else (passrights s false, decide (s.parked.length > parkPause - msgFds))

def track (s : State) (pid : Nat) : State :=
  { s with tracked := s.tracked ++ [{ pid := pid, fromPid := s.senderPid, fromUid := s.senderUid }] }

def untrack (s : State) (i : Nat) : State :=
  { s with
    ovf := if (s.tracked[i]?.map Track.pid) = s.ovf then none else s.ovf
    tracked := swapRemove s.tracked i }

def flush (s : State) (ok : Bool) : State :=
  if s.ovf.isSome ∨ s.parked = [] then s
  else if !ok then s
  else
    let pid := s.nextPid
    let s' := clone s s.parked
    -- the closer is booked under the sender of the first parked descriptor
    { s' with
      ovf := some pid
      tracked := s'.tracked ++ [{ pid := pid, fromPid := s.parkPid, fromUid := s.parkUid }]
      ovfFds := s.parked.map (fun fd => (fd, s.table.get fd))
      parked := [] }

def spawn (s : State) (fd : Int) (ok : Bool) : State :=
  if perfd s ≥ maxInflight then
    let s := (full s).1
    if s.parked.length < parkMax then
      { s with
        parkPid := if s.parked = [] then s.senderPid else s.parkPid
        parkUid := if s.parked = [] then s.senderUid else s.parkUid
        parked := s.parked ++ [fd] }
    else close s fd
  else if ok then track (clone s [fd]) s.nextPid
  else close s fd

/-- The loop of `fd_close_detached`; `oks` are the outcomes of its clones. -/
def spawnAll (s : State) : List Int → List Bool → State
  | [], _ => s
  | fd :: fds, oks => spawnAll (spawn s fd (oks.headD false)) fds oks.tail

def fdCloseDetached (s : State) (fds : List Int) (oks : List Bool) (flushOk : Bool) : State :=
  flush (spawnAll s fds oks) flushOk

def reopen (s : State) : State :=
  if perfd s < maxInflight then passrights s true else s

def reaped (s : State) (pid : Nat) (flushOk : Bool) : State :=
  match s.tracked.findIdx? (fun t => t.pid = pid) with
  | none => s
  | some i =>
    let s := if s.ovf = some pid then { s with ovfFds := [] } else s
    reopen (flush (untrack s i) flushOk)

/-- The loop of `fdclose_resume`: numbers of the record that are still open
park again while there is room. -/
def repark (get : Int → Option Nat) : List Int → List (Int × Option Nat) → List Int
  | parked, [] => parked
  | parked, (fd, _) :: rest =>
    if parked.length < parkMax then
      repark get (if (get fd).isSome then parked ++ [fd] else parked) rest
    else parked

def resume (s : State) (flushOk : Bool) : State :=
  let s := match s.ovf with
    | none => { s with parked := repark s.table.get s.parked s.ovfFds, ovfFds := [] }
    | some _ => s
  reopen (flush s flushOk)

/-! ## `fdclose_quiesce`

Closers run on while PID 1 waits for them.  `script` says which of them move
before each look PID 1 takes at one: one list of pids per look. -/

def interleave (s : State) (script : List (List Nat)) : State × List (List Nat) :=
  ((script.headD []).foldl move s, script.tail)

def waited (s : State) (pid : Nat) : Bool :=
  match lookup Proc.pid pid s.procs with
  | none => true
  | some p => p.exited

def inClose (s : State) (pid : Nat) : Bool :=
  match lookup Proc.pid pid s.procs with
  | none => false
  | some p => p.inClose

def bury (s : State) (i pid : Nat) : State :=
  untrack { s with procs := remove Proc.pid pid s.procs } i

def scan : Nat → State → List (List Nat) → Nat → Bool → State × List (List Nat) × Bool
  | 0, s, script, _, pending => (s, script, pending)
  | fuel + 1, s, script, i, pending =>
    let (s, script) := interleave s script
    match s.tracked[i]? with
    | none => (s, script, pending)
    | some t =>
      if waited s t.pid then scan fuel (bury s i t.pid) script i pending
      else scan fuel s script (i + 1) (pending || !inClose s t.pid)

/-- The first loop: up to 100 ticks until every closer has exited or is in
`close()`. The flag says that it got there. -/
def settle : Nat → State → List (List Nat) → State × List (List Nat) × Bool
  | 0, s, script => (s, script, false)
  | ticks + 1, s, script =>
    let (s, script, pending) := scan s.tracked.length s script 0 false
    if pending then settle ticks s script else (s, script, true)

def kill (s : State) (pid : Nat) : State :=
  updProc s pid (fun p => if p.exited then p else { p with killed := true })

def killAll : List Track → State → List (List Nat) → State × List (List Nat)
  | [], s, script => (s, script)
  | t :: ts, s, script =>
    let (s, script) := interleave s script
    killAll ts (kill s t.pid) script

def collect : Nat → State → List (List Nat) → Nat → State × List (List Nat)
  | 0, s, script, _ => (s, script)
  | fuel + 1, s, script, i =>
    let (s, script) := interleave s script
    match s.tracked[i]? with
    | none => (s, script)
    | some t =>
      if waited s t.pid then collect fuel (bury s i t.pid) script i
      else collect fuel s script (i + 1)

def collectAll : Nat → State → List (List Nat) → State
  | 0, s, _ => s
  | ticks + 1, s, script =>
    if s.tracked = [] then s
    else
      let (s, script) := collect s.tracked.length s script 0
      collectAll ticks s script

def quiesce (s : State) (script : List (List Nat)) (flushOk : Bool) : State × Int :=
  let (s, script, settled) := settle 100 s script
  if !settled then (s, -1)
  else
    let (s, script) := killAll s.tracked s script
    let s := collectAll 100 s script
    if s.tracked = [] then (s, 0) else (resume s flushOk, -2)

/-! ## Events -/

inductive Event where
  /-- PID 1 opens a descriptor for itself, or receives one -/
  | openFd
  /-- PID 1 closes a descriptor of its own -/
  | closeOwn (fd : Int)
  /-- `notify_poll` books what follows under a sender -/
  | sender (pid uid : Int)
  /-- `notify_poll` asks whether it may read on -/
  | full
  | detach (fds : List Int) (oks : List Bool) (flushOk : Bool)
  | move (pid : Nat)
  /-- `waitpid(-1)` returned this closer -/
  | reap (pid : Nat) (flushOk : Bool)
  | quiesce (script : List (List Nat)) (flushOk : Bool)
  /-- the exec after a quiesce did not happen -/
  | resume (flushOk : Bool)

def step (s : State) : Event → State
  | .openFd => FdClose.openFd s
  | .closeOwn fd => { s with table := s.table.close fd }
  | .sender pid uid => { s with senderPid := pid, senderUid := uid }
  | .full => (FdClose.full s).1
  | .detach fds oks flushOk =>
    fdCloseDetached { s with handed := s.handed ++ fds.filterMap s.table.get } fds oks flushOk
  | .move pid => FdClose.move s pid
  | .reap pid flushOk =>
    reaped { s with procs := remove Proc.pid pid s.procs } pid flushOk
  | .quiesce script flushOk =>
    let (s, r) := FdClose.quiesce s script flushOk
    { s with committing := decide (r = 0) }
  | .resume flushOk => { FdClose.resume s flushOk with committing := false }

def Own (s : State) (fd : Int) : Prop :=
  match s.table.get fd with
  | none => False
  | some f => f ∉ s.handed

instance (s : State) (fd : Int) : Decidable (Own s fd) := by
  unfold Own
  split <;> infer_instance

/-- What the code around `fdclose.h` does when: descriptors are PID 1's own
until they are handed over, only an exited closer is reaped, and between a
quiesce that returned 0 and the resume nothing else of this file runs. -/
def Allowed (s : State) : Event → Prop
  | .openFd => True
  | .closeOwn fd => Own s fd
  | .sender _ _ => s.committing = false
  | .full => s.committing = false
  | .detach fds _ _ => s.committing = false ∧ fds.Nodup ∧ ∀ fd ∈ fds, Own s fd
  | .move _ => True
  | .reap pid _ => s.committing = false ∧ ∃ p ∈ s.procs, p.pid = pid ∧ p.exited = true
  | .quiesce _ _ => s.committing = false
  | .resume _ => s.committing = true

instance (s : State) : ∀ e, Decidable (Allowed s e)
  | .openFd => inferInstanceAs (Decidable True)
  | .closeOwn fd => inferInstanceAs (Decidable (Own s fd))
  | .sender _ _ => inferInstanceAs (Decidable (_ = _))
  | .full => inferInstanceAs (Decidable (_ = _))
  | .detach fds _ _ =>
    inferInstanceAs (Decidable (s.committing = false ∧ fds.Nodup ∧ ∀ fd ∈ fds, Own s fd))
  | .move _ => inferInstanceAs (Decidable True)
  | .reap pid _ =>
    inferInstanceAs (Decidable (s.committing = false ∧ ∃ p ∈ s.procs, p.pid = pid ∧ p.exited = true))
  | .quiesce _ _ => inferInstanceAs (Decidable (_ = _))
  | .resume _ => inferInstanceAs (Decidable (_ = _))

end SchemaInit.FdClose
