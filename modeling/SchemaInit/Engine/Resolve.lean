/-
# `SchemaInit.Engine.Resolve` — loading a configuration

A configuration is a list of parsed files.  `svc_finalize` refuses some of them;
`validate_and_resolve` then turns the names in a table into indices and counts the
dependency cycles it sees.  A dependency names a service or, if there is no service
of that name, a group.
-/
import SchemaInit.Lib.Dfs
import SchemaInit.Engine.Probe

namespace SchemaInit.Engine

/-! ## Files -/

/-- A `.svc` file after its lines and drop-ins have been read: its name, what they
said, and whether the hardening keys are consistent. -/
structure SvcFile where
  fname : Bytes
  conf : Conf
  flags : Flags := {}
  hardOk : Bool := true
  deriving DecidableEq

def SvcFile.baseName (f : SvcFile) : Bytes :=
  (f.fname.take (f.fname.length - 4)).take 255

def SvcFile.named (f : SvcFile) : Bool :=
  f.fname.length ≥ 5 && f.fname.drop (f.fname.length - 4) = cstr ".svc"

def oneshotStartTimeout : Int := 90

/-- `svc_finalize`: the dependency that `bind=` adds; `none` if no slot is left. -/
def bindDep (conf : Conf) : Option (List Bytes) :=
  if conf.bindName.isEmpty then some conf.depName
  else if conf.depName.any fun n => n = conf.bindName then some conf.depName
  else if conf.depName.length ≥ maxDeps then none
  else some (conf.depName ++ [conf.bindName])

def svcFinalize (f : SvcFile) : Option Service :=
  if !f.hardOk then none
  else if !f.conf.bindName.isEmpty && f.flags.timer then none
  else
    match bindDep f.conf with
    | none => none
    | some deps =>
      let s := Service.fresh { f.conf with noRestartCfg := f.flags.noRestart, depName := deps } f.flags
      if s.verifiesLimits && !s.conf.notify then none
      else if s.flags.mainPidNotify && !s.conf.notify then none
      else
        let s := if s.flags.timerPersist && !s.flags.timerCalendar then { s with flags.timerPersist := false } else s
        let s :=
          if s.conf.startTimeoutSec = -1 then
            { s with conf.startTimeoutSec := if s.flags.oneshot && !s.flags.timer then oneshotStartTimeout else 0 }
          else s
        -- a template file is not a service; an instance takes its name from the file
        let at_ := f.baseName.contains (ch '@')
        if f.named && at_ && (f.baseName.dropWhile (· ≠ ch '@')).length ≤ 1 then none
        else
          let s := if f.named && (at_ || s.conf.name.isEmpty) then { s with conf.name := f.baseName.take 63 } else s
          if s.conf.name.isEmpty || s.conf.exec.isEmpty then none else some s

/-- `services_load`: the files in directory order, as many as there is room for. -/
def servicesLoad (files : List SvcFile) : List Service :=
  (files.filterMap svcFinalize).take maxServices

/-! ## Names to indices -/

def indexOf (table : List Service) (name : Bytes) : Option Nat :=
  table.findIdx? fun s => s.conf.name = name

def resolveGroup (table : List Service) (g : Group) : Group :=
  { g with memberIdx := g.memberName.map fun n => indexOf table n }

def fillSlots (vals old : List (Option Nat)) : List (Option Nat) :=
  vals ++ old.drop vals.length

/-- The dependency loop of `validate_and_resolve`: a service of that name, else a group. -/
def resolveService (table : List Service) (groups : List Group) (s : Service) : Service :=
  let names := (s.conf.depName.takeWhile fun n => !n.isEmpty).take maxDeps
  { s with
    depIdx := fillSlots (names.map fun n => indexOf table n) s.depIdx
    grpDepIdx := fillSlots
      (names.map fun n => if (indexOf table n).isSome then none else groups.findIdx? fun g => g.name = n) s.grpDepIdx }

/-! ## Cycles -/

/-- The edges `dfs` follows from a node: every slot, whatever is in the slots before. -/
def depEdges (table : List Service) (node : Nat) : List Nat :=
  ((table.getD node default).depIdx.filterMap id).filter fun d => d < table.length

def servicesCheckCycles (table : List Service) : Nat :=
  (Dfs.search (depEdges table) table.length).cycles

def validateAndResolve (table : List Service) (groups : List Group) : List Service × List Group × Nat :=
  let groups' := groups.map (resolveGroup table)
  let table' := table.map (resolveService table groups)
  (table', groups', servicesCheckCycles table')

end SchemaInit.Engine
