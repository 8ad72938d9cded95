/-
# `SchemaInit.Engine.Probe` — what is asked before a service is started or retried

The three probes build the flag words that `schema_step` weighs; `service_deps_ready`
holds a service until its dependencies are stable.  A dependency is a service or a
group; a group's state is the worst of its members' (`aggregate`).
-/
import SchemaInit.Engine.Table

namespace SchemaInit.Engine

/-! ## Fallback cards -/

/-- `service_fallback` of service `i`: the first fallback card whose service exists. -/
def serviceFallback (table : List Service) (i : Nat) : Option Nat :=
  (table.getD i default).conf.cards.findSome? fun
    | .fallback name => (List.range table.length).find? fun j => j ≠ i && (table.getD j default).conf.name = name
    | .exec _ => none

/-- `service_is_standby`: another service names this one on a fallback card. -/
def serviceIsStandby (table : List Service) (i : Nat) : Bool :=
  (List.range table.length).any fun j =>
    j ≠ i && (table.getD j default).conf.cards.any fun c => c = .fallback (table.getD i default).conf.name

/-! ## Probes -/

def State.stable : State → Bool
  | .fundamental | .settled | .perfect => true
  | _ => false

def State.gone : State → Bool
  | .excised | .dormant => true
  | _ => false

/-- The dependency loop of `service_probe_f8`: present, and stable so far. -/
def probeDeps (table : List Service) : List (Option Nat) → Bool → Bool × Bool
  | [], stable => (true, stable)
  | none :: _, stable => (true, stable)
  | some d :: rest, stable =>
    match table[d]? with
    | none => (false, stable)
    | some t =>
      if t.rt.inst.state.gone then
        if t.flags.critical then (false, stable) else probeDeps table rest stable
      else probeDeps table rest (stable && t.rt.inst.state.stable)

def serviceProbeF8 (w : World) (table : List Service) (s : Service) : Nat :=
  let deps := probeDeps table s.depIdx true
  bits [w.execExists, w.execRuns, deps.1, deps.2, w.memKb > 0, w.memKb ≥ memMinKb, true, !s.flags.needsRoot || w.root]

def serviceProbeF9 (w : World) (table : List Service) (i : Nat) : Nat :=
  let s := table.getD i default
  let budget : Bool := s.rt.restartCount < s.conf.maxRestarts
  let fb := serviceFallback table i
  let healthy : Bool :=
    match fb with
    | none => false
    | some j =>
      let f := table.getD j default
      f.rt.childPid > 0 && (f.rt.inst.state = .fundamental || f.rt.inst.state = .perfect)
  let inHand : Bool := s.rt.card.next < s.conf.cards.length
  bits [budget, !s.rt.spawnTime.isSet || w.now.sec - s.rt.spawnTime.sec ≥ cooldownSecs, fb.isSome, healthy,
    w.memKb > 0, w.memKb ≥ memMinKb, inHand, inHand, budget, budget, false, false]

def serviceProbeF6 (w : World) (s : Service) : Nat :=
  let budget : Bool := s.rt.restartCount < s.conf.maxRestarts
  bits [budget, w.memKb ≥ memMinKb, false, false, budget, true]

/-! ## Dependencies -/

def depReady (table : List Service) (groups : List State) (di gi : Option Nat) : Bool :=
  let group : Bool :=
    match gi with
    | none => true
    | some g => (groups[g]?).any State.stable
  match di with
  | none => group
  | some d =>
    match table[d]? with
    | none => false
    | some t =>
      -- a non-critical excised or dormant dependency: proceed without it
      if t.rt.inst.state.gone then !t.flags.critical
      else t.rt.inst.state.stable && group

def Service.depSlots (s : Service) : Nat :=
  (s.conf.depName.takeWhile fun n => !n.isEmpty).length

def serviceDepsReady (table : List Service) (groups : List State) (s : Service) : Bool :=
  (List.range (min s.depSlots maxDeps)).all fun k =>
    depReady table groups (s.depIdx.getD k none) (s.grpDepIdx.getD k none)

/-! ## Groups -/

def aggregateLoop (states : List State) : List (Option Nat) → Bool → Bool → Bool → State
  | [], starting, allPerfect, anySettled =>
    if starting then .newProcess
    else if allPerfect then .perfect
    else if anySettled then .settled
    else .fundamental
  | none :: _, _, _, _ => .newProcess
  | some k :: rest, starting, allPerfect, anySettled =>
    match states[k]? with
    | none => .newProcess
    | some .excised => .excised
    | some .friction => .friction
    | some .recovery => .recovery
    | some s =>
      aggregateLoop states rest (starting || s = .newProcess || s = .fullTrust) (allPerfect && s = .perfect)
        (anySettled || s = .settled)

def aggregate (members : List (Option Nat)) (states : List State) : State :=
  if members.isEmpty then .perfect else aggregateLoop states members false true false

def groupsUpdate (groups : List Group) (states : List State) : List Group :=
  groups.map fun g => { g with state := if g.refused then .excised else aggregate g.memberIdx states }

/-- The states `engine_run` aggregates: a timer that fires counts as done. -/
def svcStates (table : List Service) : List State :=
  table.map fun s =>
    if s.flags.timer && (s.rt.inst.state = .newProcess || s.rt.inst.state = .fullTrust) then .perfect
    else s.rt.inst.state

end SchemaInit.Engine
