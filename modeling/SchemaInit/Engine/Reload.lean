/-
# `SchemaInit.Engine.Reload` — a new configuration for a running engine

`handle_reload` loads the configuration into a shadow table, checks it, and merges the
running state into it by name: a service found in both tables keeps its runtime half.
What is left in the old table is orphaned; `--evict` sends it away.  Then the tables are
swapped, leftovers of evicted services that are back are killed, and timers that were
never armed are armed.
-/
import SchemaInit.Engine.Resolve
import SchemaInit.Engine.Spawn

namespace SchemaInit.Engine

/-! ## The service directory -/

structure GrpFile where
  name : Bytes
  members : List Bytes
  deriving DecidableEq

def groupsLoad (files : List GrpFile) : List Group :=
  ((files.filter fun f => !f.name.isEmpty).take maxGroups).map fun f =>
    { name := f.name
      memberName := f.members.take maxMembers
      memberIdx := (f.members.take maxMembers).map fun _ => none
      refused := f.members.length > maxMembers }

structure SvcDir where
  files : List SvcFile := []
  groups : List GrpFile := []
  deriving DecidableEq

/-- What a load finds: the service directory with the files and directories refused on
owner or mode, the fallback directory, and the engine's settings. -/
structure Config where
  dir : SvcDir := {}
  dirThere : Bool := true
  refused : Nat := 0
  fallback : Option SvcDir := none
  allowEmpty : Bool := false
  integrity : Bool := true

def Config.services (c : Config) : List Service :=
  let table := servicesLoad c.dir.files
  if table.isEmpty then (c.fallback.map fun d => servicesLoad d.files).getD table else table

def Config.groups (c : Config) : List Group :=
  let table := groupsLoad c.dir.groups
  if table.isEmpty then (c.fallback.map fun d => groupsLoad d.groups).getD table else table

/-! ## Refusals -/

inductive ReloadError where
  | refused (n : Nat)
  | empty
  | integrity (name : Bytes)
  | cycle

def emDash : Bytes := [0xE2, 0x80, 0x94]

def ReloadError.text : ReloadError → Bytes
  | .refused n =>
    cstr (toString n) ++ cstr " .svc file(s) or service dir(s) refused: not root-owned or writable by others " ++
      emDash ++ cstr " see the REFUSED/WARN lines (chown root:root; chmod go-w)"
  | .empty => cstr "no services loaded from configuration"
  | .integrity name =>
    cstr "'" ++ name ++ cstr "' modified since boot " ++ emDash ++
      cstr " integrity check rejected the reload; a changed .svc takes effect at next boot"
  | .cycle => cstr "dependency cycle in new configuration"

/-- The hash check of one file: a service of that name runs from another content. -/
def hashDiffers (live : List Service) (s : Service) : Bool :=
  match live.find? fun t => t.conf.name = s.conf.name with
  | none => false
  | some t => s.conf.contentHash ≠ t.conf.contentHash && s.conf.contentHash ≠ 0

def reloadError (live : List Service) (c : Config) : Option ReloadError :=
  if c.refused ≠ 0 then some (.refused c.refused)
  else if c.services.isEmpty && (!c.allowEmpty || !c.dirThere) then some .empty
  else
    match if c.integrity then c.services.find? (hashDiffers live) else none with
    | some s => some (.integrity s.conf.name)
    | none => if (validateAndResolve c.services c.groups).2.2 > 0 then some .cycle else none

/-! ## The merge -/

/-- A service of the new table takes over the running state of the live one. -/
def Service.takeOver (w : World) (s live : Service) : Service :=
  ((s.runtimeCopy live).clampHold w.now).carryTimerDone (!live.flags.timer)

def Service.takenOver (live : Service) : Service :=
  { live with rt.childPid := 0, rt.failsafePid := 0, rt.listen.open_ := 0 }

/-- The merge loop of `handle_reload`: the new table, and what it leaves of the live one. -/
def merge (w : World) : List Service → List Service → List Service × List Service
  | [], live => ([], live)
  | s :: shadow, live =>
    match live.findIdx? fun t => t.conf.name = s.conf.name with
    | none =>
      let r := merge w shadow live
      (s :: r.1, r.2)
    | some j =>
      let t := live.getD j default
      let r := merge w shadow (live.set j t.takenOver)
      (s.takeOver w t :: r.1, r.2)

namespace Pid1

/-! ## Orphans -/

/-- `handle_reload`, the `--evict` of a service that is not in the new table. -/
def evictOrphan (w : World) (j : Nat) (s : Service) (e : Pid1) : Pid1 :=
  let e :=
    if s.rt.childPid > 0 then evictionAdd w s.rt.childPid s.rt.cgroupPath (e.emit (.signal s.rt.childPid .term)) else e
  let e :=
    if s.rt.stop.pid > 0 then evictionAdd w s.rt.stop.pid [] e
    else if s.rt.childPid > 0 && (s.conf.execStopCount ≠ 0 || s.conf.execStopPostCount ≠ 0) then
      match w.stopFork j with
      | none => e
      | some pid => evictionAddAs w pid [] false 0 (max s.conf.stopTimeoutSec evictGraceSecs) e
    else e
  if s.rt.failsafePid > 0 then e.emit (.signal s.rt.failsafePid .term) else e

def orphan (w : World) (evict : Bool) (j : Nat) (s : Service) (e : Pid1) : Pid1 :=
  let e :=
    if s.rt.childPid > 0 || s.rt.failsafePid > 0 then
      let e := e.emit (.orphaned s.conf.name s.rt.childPid)
      if evict then evictOrphan w j s e else e
    else e
  (s.rt.listen.fds.take s.rt.listen.open_).foldl (fun e fd => e.emit (.close fd)) e

def orphans (w : World) (evict : Bool) : Nat → List Service → Pid1 → Pid1
  | _, [], e => e
  | j, s :: rest, e => orphans w evict (j + 1) rest (orphan w evict j s e)

def armNewTimers (ws : Nat → World) (e : Pid1) : Pid1 :=
  { e with
    services := e.services.mapIdx fun i s =>
      if s.flags.timer && s.rt.timerNext.sec = 0 then s.timerArm (ws i) else s }

def adoptConfig (w : World) (ws : Nat → World) (evict : Bool) (c : Config) (e : Pid1) : Pid1 :=
  let shadow := validateAndResolve c.services c.groups
  let merged := merge w shadow.1 e.services
  let e := orphans w evict 0 merged.2 e
  armNewTimers ws (evictionReadded w { e with services := merged.1, groups := shadow.2.1 })

def handleReload (w : World) (ws : Nat → World) (evict : Bool) (c : Config) (e : Pid1) : Pid1 × Option ReloadError :=
  match reloadError e.services c with
  | some err => (e, some err)
  | none => (adoptConfig w ws evict c e, none)

end Pid1

end SchemaInit.Engine
