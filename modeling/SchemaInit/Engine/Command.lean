/-
# `SchemaInit.Engine.Command` — the operator's commands

`ctl_cmd` for the commands that change the engine: `start`, `stop`, `restart`, `reset`,
`add`, `reload` and `pet`, each with the line it answers.  `stop` holds a service down
with the flag that `no_restart=1` sets; `start`, `restart` and `reset` put the flag back
to what the file says.
-/
import SchemaInit.Engine.Reload

namespace SchemaInit.Engine

/-! ## Answers -/

def State.name : State → Bytes
  | .fundamental => cstr "FUNDAMENTAL"
  | .friction => cstr "FRICTION"
  | .settled => cstr "SETTLED"
  | .newProcess => cstr "NEW_PROCESS"
  | .recovery => cstr "RECOVERY"
  | .fullTrust => cstr "FULL_TRUST"
  | .perfect => cstr "PERFECT"
  | .excised => cstr "EXCISED"
  | .dormant => cstr "DORMANT"

/-- `ctl_writef`: a line that does not fit the buffer is cut and still ends. -/
def writef (text : Bytes) : Bytes :=
  if text.length ≥ 512 then text.take 510 ++ [ch '\n'] else text

def arrow : Bytes := [0xE2, 0x86, 0x92]

def notFound (name : Bytes) : Bytes :=
  writef (cstr "err: not found: " ++ name ++ cstr "\n")

def isErr (reply : Bytes) : Bool :=
  startsWith (cstr "err: ") reply

def Service.failed (s : Service) : Bool :=
  if s.flags.noRestart && !s.conf.noRestartCfg then false
  else
    s.rt.inst.state = .dormant ||
      (s.rt.inst.state = .excised && s.rt.exciseReason ≠ .none && s.rt.exciseReason ≠ .bind)

/-- What `schema-ctl stop` sets: no restart, and no return with its bound. -/
def Service.heldDown (s : Service) : Service :=
  { s with flags.noRestart := true, rt.restartAt := .zero, rt.bind.held := false, rt.bind.diedAt := .zero }

variable (w : World)

namespace Pid1

/-! ## Start, stop, restart, reset -/

def ctlStart (i : Nat) (e : Pid1) : Pid1 × Bytes :=
  let s := e.at_ i
  let name := s.conf.name
  if s.rt.inst.state = .excised || s.rt.inst.state = .perfect then
    let e := e.mod i fun s =>
      { s.restartPolicyRestore with rt.listen.hold := false, rt.inst.state := .newProcess, rt.restartCount := 0 }
    (ctlRearm w i true e, writef (cstr "ok: " ++ name ++ cstr " queued\n"))
  else if s.rt.inst.state = .newProcess && s.retryHeld w.now then
    (ctlRearm w i true e, writef (cstr "ok: " ++ name ++ cstr " restart_sec hold cleared\n"))
  else (e, writef (cstr "err: " ++ name ++ cstr " is " ++ s.rt.inst.state.name ++ cstr "\n"))

def ctlStop (i : Nat) (e : Pid1) : Pid1 × Bytes :=
  let name := (e.at_ i).conf.name
  let e := e.mod i Service.heldDown
  if (e.at_ i).rt.childPid > 0 then
    let e := stopMain w i (e.mod i fun s => { s with rt.ctlKilled := true })
    let how := if (e.at_ i).rt.stop.pid > 0 then cstr "exec_stop" else cstr "SIGTERM"
    (e, writef (cstr "ok: " ++ how ++ cstr " " ++ arrow ++ cstr " " ++ name ++ cstr " (pid " ++
      cstr (toString (e.at_ i).rt.childPid) ++ cstr ")\n"))
  else
    let e := e.on w i fun l => { (l.ctlWaitAbort w i) with svc.rt.inst.state := .excised, svc.rt.exciseReason := .none }
    (e, writef (cstr "ok: " ++ name ++ cstr " stopped (was not running)\n"))

def ctlRestart (i : Nat) (e : Pid1) : Pid1 × Bytes :=
  let name := (e.at_ i).conf.name
  let e := e.mod i fun s => { s.restartPolicyRestore with rt.listen.hold := false }
  if (e.at_ i).rt.childPid > 0 then
    (stopMain w i (e.mod i fun s => { s with rt.ctlKilled := true }),
      writef (cstr "ok: SIGTERM " ++ arrow ++ cstr " " ++ name ++ cstr " " ++
        emDash ++ cstr " recovery arc will respawn\n"))
  else
    let e := e.on w i fun l => { (l.ctlWaitAbort w i) with svc.rt.inst.state := .newProcess, svc.rt.restartCount := 0 }
    (ctlRearm w i true e, writef (cstr "ok: " ++ name ++ cstr " requeued\n"))

def ctlReset (i : Nat) (e : Pid1) : Pid1 × Bytes :=
  let name := (e.at_ i).conf.name
  let e := ctlRearm w i false (e.mod i fun s => { s with rt.restartCount := 0, rt.dormantCount := 0 })
  let e := e.mod i Service.restartPolicyRestore
  let st := (e.at_ i).rt.inst.state
  if st = .excised || st = .dormant || st = .perfect then
    (e.mod i fun s => { s with rt.inst.state := .newProcess },
      writef (cstr "ok: reset and queued " ++ name ++ cstr "\n"))
  else
    (e, writef (cstr "ok: reset restart count for " ++ name ++ cstr " (current state: " ++ st.name ++ cstr ")\n"))

def resetOne (i : Nat) (e : Pid1) : Pid1 :=
  let failed := (e.at_ i).failed
  let e := e.mod i fun s =>
    Service.breakerClear { s with rt.restartCount := 0, rt.dormantCount := 0, rt.card.next := 0 }
  if failed then
    (ctlRearm w i false e).mod i fun s => { s.restartPolicyRestore with rt.inst.state := .newProcess }
  else if (e.at_ i).rt.inst.state = .newProcess then e.mod i fun s => { s with rt.restartAt := .zero }
  else e

def ctlResetAll (e : Pid1) : Pid1 × Bytes :=
  let r := (List.range e.count).foldl
    (fun (r : Pid1 × Nat) i => (resetOne w i r.1, if (r.1.at_ i).failed then r.2 + 1 else r.2)) (e, 0)
  (r.1, writef (cstr "ok: counters cleared, " ++ cstr (toString r.2) ++ cstr " failed requeued\n"))

/-! ## Add -/

def ctlAdd (path : Bytes) (file : Option SvcFile) (e : Pid1) : Pid1 × Bytes :=
  if e.count ≥ maxServices then
    (e, writef (cstr "err: MAX_SERVICES (" ++ cstr (toString maxServices) ++ cstr ") reached\n"))
  else
    match file.bind svcFinalize with
    | none => (e, writef (cstr "err: failed to load " ++ path ++ cstr "\n"))
    | some s =>
      if e.services.any fun t => t.conf.name = s.conf.name then
        (e, writef (cstr "err: '" ++ s.conf.name ++ cstr "' already loaded\n"))
      else
        let r := validateAndResolve (e.services ++ [s]) e.groups
        if r.2.2 > 0 then
          -- the live tables were resolved with the new entry: resolve them again without it
          let back := validateAndResolve (r.1.take e.count) r.2.1
          ({ e with services := back.1, groups := back.2.1 },
            writef (cstr "err: '" ++ s.conf.name ++ cstr "' introduces a dependency cycle " ++
              emDash ++ cstr " rejected\n"))
        else
          let e' := { e with services := r.1, groups := r.2.1 }
          (e'.mod e.count fun s => if s.flags.timer then s.timerArm w else s,
            writef (cstr "ok: " ++ s.conf.name ++ cstr " queued\n"))

/-! ## Dispatch -/

end Pid1

/-- A command that changes the engine; for `add` and `reload` with what the load finds. -/
inductive Cmd where
  | start (name : Bytes)
  | stop (name : Bytes)
  | restart (name : Bytes)
  | reset (name : Bytes)
  | resetAll
  | add (path : Bytes) (file : Option SvcFile)
  | reload (evict : Bool) (c : Config)
  | pet (name : Bytes)

namespace Pid1

def named (name : Bytes) (f : Nat → Pid1 → Pid1 × Bytes) (e : Pid1) : Pid1 × Bytes :=
  match e.find name with
  | none => (e, notFound name)
  | some i => f i e

def reloadAnswer (evict : Bool) : Option ReloadError → Bytes
  | none => writef (cstr "ok: reload " ++ (if evict then cstr "(evict mode)" else cstr "(graceful)") ++ cstr "\n")
  | some err => writef (cstr "err: reload rejected " ++ emDash ++ cstr " " ++ err.text.take 255 ++ cstr "\n")

def ctlCmd (ws : Nat → World) (cmd : Cmd) (e : Pid1) : Pid1 × Bytes :=
  match cmd with
  | .start name => named name (ctlStart w) e
  | .stop name => named name (ctlStop w) e
  | .restart name => named name (ctlRestart w) e
  | .reset name => named name (ctlReset w) e
  | .resetAll => ctlResetAll w e
  | .add path file => ctlAdd w path file e
  | .reload evict c =>
    let r := handleReload w ws evict c e
    (r.1, reloadAnswer evict r.2)
  | .pet name =>
    named name (fun i e => (e.mod i fun s => { s with rt.watchdog.lastPet := w.now }, cstr "ok\n")) e

end Pid1

end SchemaInit.Engine
