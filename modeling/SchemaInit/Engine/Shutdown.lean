/-
# `SchemaInit.Engine.Shutdown` — stopping everything in order

`shutdown_ordered` goes round until no service is alive.  A round reaps, finds out
which services are alive, and then lets each of them take its next step:

    exec_stop   once nothing that is alive depends on it
    SIGTERM     when exec_stop is done or out of time
    SIGKILL     when the grace after SIGTERM is over
    exec_stop_post   once it is gone

While a `stop_first` service is alive, the others get neither `exec_stop` nor
SIGTERM; while less than `SHUT_TOTAL_MS` has passed, a service waits for those that
depend on it.  Nothing but the aliveness of the others, found at the beginning of the
round, passes from one service to another, so both loops over the services are maps.

The order is kept in every round of every run (`shutdown_keeps_order`); whether the two
rules can block each other is the subject of `SchemaInit.Engine.ShutdownStall`.
-/
import SchemaInit.Lib.Run
import SchemaInit.Engine.Resolve
import SchemaInit.Engine.Stop

namespace SchemaInit.Engine

open Service Option List

def shutTotalMs : Nat := 12000

/-! ## A service during shutdown -/

def u64Sub (a b : Nat) : Nat :=
  (a + 2 ^ 64 - b % 2 ^ 64) % 2 ^ 64

def Timespec.u64ms (t : Timespec) : Nat :=
  ((t.sec * 1000 + t.nsec / 1000000) % 2 ^ 64).toNat

structure ShutRound where
  /-- the clock, the forks, and `kill(p, 0) == 0` -/
  world : World := {}
  /-- what `waitpid` returns, the closers of descriptors apart -/
  reaped : List Nat := []
  /-- `cgroup.procs` -/
  procs : Bytes → List Nat := fun _ => []

def ShutRound.now (r : ShutRound) : Nat :=
  r.world.now.u64ms

structure ShutSvc where
  svc : Service
  alive : Bool := false
  killed : Bool := false
  wasUp : Bool := false
  termAt : Nat := 0
  stopAt : Nat := 0
  postAt : Nat := 0
  deriving DecidableEq, Inhabited

def ShutSvc.grace (x : ShutSvc) : Nat :=
  (x.svc.stopGraceMs % 2 ^ 64).toNat

inductive ShutAct where
  | stopBegin (i : Nat)
  | postBegin (i : Nat)
  | term (i : Nat) (pids : List Nat)
  | kill (i : Nat)
  | killRunner (i : Nat) (pid : Nat)
  deriving DecidableEq

def shutDependsOn (groups : List Group) (s : Service) (target : Nat) : Bool :=
  (List.range (min s.depSlots maxDeps)).any fun k =>
    s.depIdx.getD k none = some target ||
      match s.grpDepIdx.getD k none with
      | none => false
      | some g => (groups.getD g default).memberIdx.contains (some target)

def svcSignalAll (r : ShutRound) (s : Service) : List Nat :=
  let child := if s.rt.childPid > 0 && r.world.alive s.rt.childPid then [s.rt.childPid] else []
  if s.rt.cgroupPath.isEmpty then child
  else child ++ (r.procs s.rt.cgroupPath).filter fun p => p > 1 && p ≠ s.rt.childPid && r.world.alive p

/-- `shut_reap` for one process: the first service whose runner or main process it was. -/
def shutReapOne (pid : Nat) : List ShutSvc → List ShutSvc
  | [] => []
  | x :: xs =>
    if x.svc.rt.stop.pid = pid then { x with svc.rt.stop.pid := 0, svc.rt.stop.phase := 0 } :: xs
    else if x.svc.rt.childPid = pid then { x with svc.rt.childPid := 0 } :: xs
    else x :: shutReapOne pid xs

def shutReap (pids : List Nat) (svcs : List ShutSvc) : List ShutSvc :=
  pids.foldl (fun svcs pid => shutReapOne pid svcs) svcs

/-! ## The first loop: who is alive -/

/-- A service that was up is gone: its stop runner is waited for, then `exec_stop_post` begins. -/
def shutPost (r : ShutRound) (i : Nat) (x : ShutSvc) : ShutSvc × List ShutAct :=
  if !x.alive && x.wasUp && x.postAt = 0 then
    if x.svc.rt.stop.pid > 0 then
      let ran := u64Sub r.now x.svc.rt.stop.start.u64ms
      ({ x with alive := !x.killed && ran < x.grace + 1000 },
        if ran ≥ x.grace then [.killRunner i x.svc.rt.stop.pid] else [])
    else
      match Loc.stopRunner r.world i 2 x.svc with
      | none => (x, [])
      | some pid =>
        ({ x with svc.rt.stop := { pid := pid, phase := 2, start := r.world.now }, postAt := r.now }, [.postBegin i])
  else (x, [])

def shutPostWait (r : ShutRound) (i : Nat) (x : ShutSvc) : ShutSvc × List ShutAct :=
  if x.postAt ≠ 0 && x.svc.rt.stop.pid > 0 then
    if u64Sub r.now x.postAt < x.grace then ({ x with alive := true }, [])
    else (x, [.killRunner i x.svc.rt.stop.pid])
  else (x, [])

def shutCheck (r : ShutRound) (first : Bool) (i : Nat) (x : ShutSvc) : ShutSvc × List ShutAct :=
  let alive := !x.killed && !(svcSignalAll r x.svc).isEmpty
  let x := { x with alive := alive, wasUp := if first then alive else x.wasUp }
  let p := shutPost r i x
  let q := shutPostWait r i p.1
  (q.1, p.2 ++ q.2)

/-! ## The second loop: who goes next -/

def shutTerm (r : ShutRound) (i : Nat) (x : ShutSvc) : ShutSvc × ShutAct :=
  ({ x with termAt := r.now }, .term i (svcSignalAll r x.svc))

/-- A service that may go: `exec_stop` first, or one already running from `schema-ctl stop`;
SIGTERM once it is done or out of time. -/
def shutNext (r : ShutRound) (i : Nat) (x : ShutSvc) : ShutSvc × List ShutAct :=
  if x.stopAt = 0 && x.svc.rt.stop.pid > 0 then ({ x with stopAt := r.now }, [])
  else
    match if x.stopAt = 0 then Loc.stopRunner r.world i 1 x.svc else none with
    | some pid =>
      ({ x with svc.rt.stop := { pid := pid, phase := 1, start := r.world.now }, stopAt := r.now }, [.stopBegin i])
    | none =>
      let t := shutTerm r i x
      if x.stopAt ≠ 0 && x.svc.rt.stop.pid > 0 then
        if u64Sub r.now x.stopAt < x.grace then (x, [])
        else (t.1, [.killRunner i x.svc.rt.stop.pid, t.2])
      else (t.1, [t.2])

def shutStop (r : ShutRound) (hold blocked : Bool) (i : Nat) (x : ShutSvc) : ShutSvc × List ShutAct :=
  if !x.alive then (x, [])
  else if x.termAt ≠ 0 then
    if u64Sub r.now x.termAt < x.grace then (x, []) else ({ x with killed := true }, [.kill i])
  else if hold && !x.svc.flags.stopFirst then (x, [])
  else if blocked then (x, [])
  else shutNext r i x

/-! ## A round -/

/-- The variables of `shutdown_ordered`; `acts` is what it has done so far. -/
structure Shutdown where
  svcs : List ShutSvc
  groups : List Group
  start : Nat
  held : Bool := false
  first : Bool := true
  ended : Bool := false
  acts : List ShutAct := []

namespace Shutdown

def begin (services : List Service) (groups : List Group) (now : Nat) : Shutdown where
  svcs := services.map fun s => { svc := s }
  groups := groups
  start := now

variable (s : Shutdown) (r : ShutRound)

def found : List ShutSvc :=
  shutReap r.reaped s.svcs

def check : List (ShutSvc × List ShutAct) :=
  (s.found r).mapIdx fun i x => shutCheck r s.first i x

def checked : List ShutSvc :=
  (s.check r).map Prod.fst

def anyAlive : Bool :=
  (s.checked r).any ShutSvc.alive

def hold : Bool :=
  (s.checked r).any fun x => x.alive && x.svc.flags.stopFirst

/-- When the phase began: at the start, or when the last `stop_first` service was down. -/
def phaseStart : Nat :=
  if s.held && !s.hold r then r.now else s.start

def dependedOn (i : Nat) : Bool :=
  (List.range (s.checked r).length).any fun j =>
    let x := (s.checked r).getD j default
    j ≠ i && x.alive && shutDependsOn s.groups x.svc i

def blocked (i : Nat) : Bool :=
  u64Sub r.now (s.phaseStart r) < shutTotalMs && s.dependedOn r i

def stop : List (ShutSvc × List ShutAct) :=
  (s.checked r).mapIdx fun i x => shutStop r (s.hold r) (s.blocked r i) i x

def roundActs : List ShutAct :=
  (s.check r).flatMap Prod.snd ++ if s.anyAlive r then (s.stop r).flatMap Prod.snd else []

def step : Shutdown :=
  if s.ended then s
  else if s.anyAlive r then
    { s with svcs := (s.stop r).map Prod.fst, start := s.phaseStart r, held := s.hold r, first := false,
             acts := s.acts ++ s.roundActs r }
  else { s with svcs := s.checked r, ended := true, acts := s.acts ++ s.roundActs r }

end Shutdown

/-! ## What a round leaves alone -/

def Service.settings (s : Service) : Service :=
  { s with rt := default }

theorem Service.settings_flags (s : Service) : s.settings.flags = s.flags := rfl

theorem shutDependsOn_settings (groups : List Group) (s : Service) (target : Nat) :
    shutDependsOn groups s.settings target = shutDependsOn groups s target := rfl

def ShutSvc.mark (x : ShutSvc) : Service × Bool × Nat :=
  (x.svc.settings, x.killed, x.termAt)

theorem shutReapOne_mark (pid : Nat) (svcs : List ShutSvc) :
    (shutReapOne pid svcs).map ShutSvc.mark = svcs.map ShutSvc.mark := by
  induction svcs with
  | nil => rfl
  | cons x xs ih =>
    simp only [shutReapOne]
    split
    · rfl
    · split
      · rfl
      · rw [map_cons, ih, map_cons]

theorem shutReap_mark (pids : List Nat) (svcs : List ShutSvc) :
    (shutReap pids svcs).map ShutSvc.mark = svcs.map ShutSvc.mark := by
  induction pids generalizing svcs with
  | nil => rfl
  | cons pid pids ih => exact (ih (shutReapOne pid svcs)).trans (shutReapOne_mark pid svcs)

section
variable {r : ShutRound} {first hold blocked : Bool} {i : Nat} {x : ShutSvc}

theorem shutPost_mark : (shutPost r i x).1.mark = x.mark := by
  unfold shutPost
  split
  · split
    · rfl
    · split
      · rfl
      · rfl
  · rfl

theorem shutPostWait_mark : (shutPostWait r i x).1.mark = x.mark := by
  unfold shutPostWait
  split
  · split
    · rfl
    · rfl
  · rfl

theorem shutCheck_mark : (shutCheck r first i x).1.mark = x.mark := by
  unfold shutCheck
  rw [shutPostWait_mark, shutPost_mark]
  rfl

theorem shutCheck_alive (hkilled : x.killed = false) (hproc : svcSignalAll r x.svc ≠ []) :
    (shutCheck r first i x).1.alive = true := by
  have halive : (!x.killed && !(svcSignalAll r x.svc).isEmpty) = true := by simp [hkilled, hproc]
  have hwait {y : ShutSvc} (hy : y.alive = true) : (shutPostWait r i y).1.alive = true := by
    unfold shutPostWait
    split
    · split
      · rfl
      · exact hy
    · exact hy
  simp only [shutCheck, halive]
  apply hwait
  simp [shutPost]

theorem shutPost_acts {a : ShutAct} (ha : a ∈ (shutPost r i x).2) :
    a = .postBegin i ∨ ∃ pid, a = .killRunner i pid := by
  unfold shutPost at ha
  split at ha
  · split at ha
    · dsimp only at ha
      split at ha
      · exact .inr ⟨_, mem_singleton.mp ha⟩
      · cases ha
    · split at ha
      · cases ha
      · exact .inl (mem_singleton.mp ha)
  · cases ha

theorem shutPostWait_acts {a : ShutAct} (ha : a ∈ (shutPostWait r i x).2) : ∃ pid, a = .killRunner i pid := by
  unfold shutPostWait at ha
  split at ha
  · split at ha
    · cases ha
    · exact ⟨_, mem_singleton.mp ha⟩
  · cases ha

theorem shutCheck_acts {a : ShutAct} (ha : a ∈ (shutCheck r first i x).2) :
    a = .postBegin i ∨ ∃ pid, a = .killRunner i pid := by
  rcases mem_append.mp ha with ha | ha
  · exact shutPost_acts ha
  · exact .inr (shutPostWait_acts ha)

inductive ShutNext (r : ShutRound) (i : Nat) (x : ShutSvc) : ShutSvc → List ShutAct → Prop where
  /-- its `exec_stop` runs -/
  | waits {y : ShutSvc} (hrun : 0 < x.svc.rt.stop.pid) (hmark : y.mark = x.mark) : ShutNext r i x y []
  | stopBegin {y : ShutSvc} (hmark : y.mark = x.mark) : ShutNext r i x y [.stopBegin i]
  | term {y : ShutSvc} {acts : List ShutAct} {pids : List Nat} (hsettings : y.svc.settings = x.svc.settings)
      (hkilled : y.killed = x.killed)
      (hacts : acts = [.term i pids] ∨ ∃ pid, acts = [.killRunner i pid, .term i pids]) : ShutNext r i x y acts

theorem shutNext_cases : ShutNext r i x (shutNext r i x).1 (shutNext r i x).2 := by
  unfold shutNext
  split
  next hrun =>
    simp only [Bool.and_eq_true, decide_eq_true_eq] at hrun
    exact .waits hrun.2 rfl
  · split
    · exact .stopBegin rfl
    · split
      next hrun =>
        simp only [Bool.and_eq_true, decide_eq_true_eq] at hrun
        split
        · exact .waits hrun.2 rfl
        · exact .term rfl rfl (.inr ⟨_, rfl⟩)
      · exact .term rfl rfl (.inl rfl)

inductive ShutStop (r : ShutRound) (hold blocked : Bool) (i : Nat) (x : ShutSvc) : ShutSvc → List ShutAct → Prop where
  | gone (h : x.alive = false) : ShutStop r hold blocked i x x []
  /-- it has its grace -/
  | grace (h : x.alive = true) (hterm : x.termAt ≠ 0) : ShutStop r hold blocked i x x []
  | kill (h : x.alive = true) (hterm : x.termAt ≠ 0) :
      ShutStop r hold blocked i x { x with killed := true } [.kill i]
  | held (h : x.alive = true) (hterm : x.termAt = 0) (hhold : hold = true) (hfirst : x.svc.flags.stopFirst = false) :
      ShutStop r hold blocked i x x []
  | blocked (h : x.alive = true) (hterm : x.termAt = 0) (hblocked : blocked = true) : ShutStop r hold blocked i x x []
  | goes {y : ShutSvc} {acts : List ShutAct} (h : x.alive = true) (hterm : x.termAt = 0)
      (hfirst : hold = true → x.svc.flags.stopFirst = true) (hfree : blocked = false)
      (hnext : ShutNext r i x y acts) : ShutStop r hold blocked i x y acts

theorem shutStop_cases (r hold blocked i x) :
    ShutStop r hold blocked i x (shutStop r hold blocked i x).1 (shutStop r hold blocked i x).2 := by
  unfold shutStop
  split
  next h => exact .gone (by simpa using h)
  next h =>
    have halive : x.alive = true := by simpa using h
    split
    next hterm =>
      split
      · exact .grace halive hterm
      · exact .kill halive hterm
    next hterm =>
      have hterm : x.termAt = 0 := by simpa using hterm
      split
      next hhold =>
        simp only [Bool.and_eq_true, Bool.not_eq_true'] at hhold
        exact .held halive hterm hhold.1 hhold.2
      next hhold =>
        simp only [Bool.and_eq_true, Bool.not_eq_true', not_and, Bool.not_eq_false] at hhold
        split
        next hblocked => exact .blocked halive hterm hblocked
        next hblocked => exact .goes halive hterm hhold (by simpa using hblocked) shutNext_cases

end

/-! ## The lists of a round -/

inductive ShutAct.Goes (i : Nat) : ShutAct → Prop where
  | stopBegin : Goes i (.stopBegin i)
  | term (pids : List Nat) : Goes i (.term i pids)

theorem mem_flatMap_mapIdx {α β γ : Type*} {f : Nat → α → β × List γ} {l : List α} {c : γ} :
    c ∈ (l.mapIdx f).flatMap Prod.snd ↔ ∃ i a, l[i]? = some a ∧ c ∈ (f i a).2 := by
  simp only [List.mem_flatMap, List.mem_mapIdx]
  constructor
  · rintro ⟨b, ⟨i, hi, rfl⟩, hc⟩
    exact ⟨i, l[i], List.getElem?_eq_getElem hi, hc⟩
  · rintro ⟨i, a, hget, hc⟩
    obtain ⟨hi, rfl⟩ := List.getElem?_eq_some_iff.mp hget
    exact ⟨_, ⟨i, hi, rfl⟩, hc⟩

namespace Shutdown

variable {s : Shutdown} {r : ShutRound} {i : Nat}

theorem getElem?_checked : (s.checked r)[i]? = ((s.found r)[i]?).map fun x => (shutCheck r s.first i x).1 := by
  simp [checked, check, Function.comp_def]

theorem getElem?_stop : (s.stop r)[i]? = ((s.checked r)[i]?).map (shutStop r (s.hold r) (s.blocked r i) i) := by
  simp [stop]

theorem checked_mark : (s.checked r).map ShutSvc.mark = s.svcs.map ShutSvc.mark := by
  rw [← shutReap_mark r.reaped s.svcs]
  apply ext_getElem?
  intro i
  rw [getElem?_map, getElem?_map, getElem?_checked, Option.map_map]
  have hmark : (ShutSvc.mark ∘ fun x => (shutCheck r s.first i x).1) = ShutSvc.mark := by
    funext x
    exact shutCheck_mark
  rw [hmark]
  rfl

theorem exists_of_checked {y : ShutSvc} (hy : (s.checked r)[i]? = some y) :
    ∃ x, s.svcs[i]? = some x ∧ x.mark = y.mark := by
  have hmark := congrArg (·[i]?) (checked_mark (s := s) (r := r))
  simp only [getElem?_map, hy, map_some] at hmark
  exact map_eq_some_iff.mp hmark.symm

theorem exists_of_mem_roundActs {a : ShutAct} (ha : a ∈ s.roundActs r) :
    (∃ k, a = .postBegin k ∨ ∃ pid, a = .killRunner k pid) ∨
      s.anyAlive r = true ∧ ∃ k y, (s.checked r)[k]? = some y ∧ a ∈ (shutStop r (s.hold r) (s.blocked r k) k y).2 := by
  rcases mem_append.mp ha with ha | ha
  · obtain ⟨k, x, -, ha⟩ := mem_flatMap_mapIdx.mp ha
    exact .inl ⟨k, shutCheck_acts ha⟩
  · split at ha
    next halive => exact .inr ⟨halive, mem_flatMap_mapIdx.mp ha⟩
    next => cases ha

theorem mem_roundActs_of_stop {a : ShutAct} {y : ShutSvc} (halive : s.anyAlive r = true)
    (hy : (s.checked r)[i]? = some y)
    (ha : a ∈ (shutStop r (s.hold r) (s.blocked r i) i y).2) : a ∈ s.roundActs r := by
  unfold roundActs
  rw [if_pos halive]
  exact mem_append_right _ (mem_flatMap_mapIdx.mpr ⟨i, y, hy, ha⟩)

theorem acts_step (h : s.ended = false) : (s.step r).acts = s.acts ++ s.roundActs r := by
  simp only [step, h, Bool.false_eq_true, if_false]
  split
  · rfl
  · rfl

theorem free_of_goes {a : ShutAct} (hgoes : a.Goes i) (ha : a ∈ s.roundActs r) :
    ∃ y, (s.checked r)[i]? = some y ∧ y.alive = true ∧ y.termAt = 0 ∧
      (s.hold r = true → y.svc.flags.stopFirst = true) ∧ s.blocked r i = false := by
  rcases exists_of_mem_roundActs ha with ⟨k, hpost⟩ | ⟨-, k, y, hy, ha⟩
  · rcases hpost with rfl | ⟨pid, rfl⟩
    · cases hgoes
    · cases hgoes
  · have hcases := shutStop_cases r (s.hold r) (s.blocked r k) k y
    generalize shutStop r (s.hold r) (s.blocked r k) k y = out at hcases ha
    obtain ⟨z, acts⟩ := out
    cases hcases with
    | gone => cases ha
    | grace => cases ha
    | kill =>
      obtain rfl := mem_singleton.mp ha
      cases hgoes
    | held => cases ha
    | blocked => cases ha
    | goes halive hterm hfirst hfree hnext =>
      have hk : k = i := by
        cases hnext with
        | waits => cases ha
        | stopBegin =>
          obtain rfl := mem_singleton.mp ha
          cases hgoes
          rfl
        | term _ _ hacts =>
          rcases hacts with rfl | ⟨pid, rfl⟩
          · obtain rfl := mem_singleton.mp ha
            cases hgoes
            rfl
          · rcases mem_cons.mp ha with rfl | ha
            · cases hgoes
            · obtain rfl := mem_singleton.mp ha
              cases hgoes
              rfl
      subst hk
      exact ⟨y, hy, halive, hterm, hfirst, hfree⟩

/-! ## What has been sent -/

structure Recorded (s : Shutdown) : Prop where
  killed : ∀ i x, s.svcs[i]? = some x → x.killed = true → ShutAct.kill i ∈ s.acts
  termAt : ∀ i x, s.svcs[i]? = some x → x.termAt ≠ 0 → ∃ pids, ShutAct.term i pids ∈ s.acts

theorem Recorded.begin (services : List Service) (groups : List Group) (now : Nat) :
    (Shutdown.begin services groups now).Recorded := by
  constructor
  all_goals
    intro i x hx h
    obtain ⟨y, -, rfl⟩ := mem_map.mp (mem_of_getElem? hx)
  · cases h
  · exact absurd rfl h

theorem Recorded.checked (h : s.Recorded) {y : ShutSvc} (hy : (s.checked r)[i]? = some y) :
    (y.killed = true → ShutAct.kill i ∈ s.acts) ∧ (y.termAt ≠ 0 → ∃ pids, ShutAct.term i pids ∈ s.acts) := by
  obtain ⟨x, hx, hmark⟩ := exists_of_checked hy
  simp only [ShutSvc.mark, Prod.mk.injEq] at hmark
  obtain ⟨-, hkilled, hterm⟩ := hmark
  exact ⟨fun hy => h.killed i x hx (hkilled.trans hy), fun hy => h.termAt i x hx (hterm ▸ hy)⟩

theorem recorded_of_shutStop {y z : ShutSvc} {acts : List ShutAct}
    (h : ShutStop r (s.hold r) (s.blocked r i) i y z acts) :
    (z.killed = true → y.killed = true ∨ ShutAct.kill i ∈ acts) ∧
      (z.termAt ≠ 0 → y.termAt ≠ 0 ∨ ∃ pids, ShutAct.term i pids ∈ acts) := by
  cases h with
  | gone => exact ⟨.inl, .inl⟩
  | grace => exact ⟨.inl, .inl⟩
  | kill => exact ⟨fun _ => .inr (mem_singleton_self _), .inl⟩
  | held => exact ⟨.inl, .inl⟩
  | blocked => exact ⟨.inl, .inl⟩
  | goes _ _ _ _ hnext =>
    cases hnext with
    | waits _ hmark | stopBegin hmark =>
      simp only [ShutSvc.mark, Prod.mk.injEq] at hmark
      rw [hmark.2.1, hmark.2.2]
      exact ⟨.inl, .inl⟩
    | term _ hkilled hacts =>
      rw [hkilled]
      refine ⟨.inl, fun _ => .inr ?_⟩
      rcases hacts with rfl | ⟨pid, rfl⟩
      · exact ⟨_, mem_singleton_self _⟩
      · exact ⟨_, mem_cons_of_mem _ (mem_singleton_self _)⟩

theorem Recorded.step (h : s.Recorded) (r : ShutRound) : (s.step r).Recorded := by
  cases hover : s.ended with
  | true =>
    rw [Shutdown.step, if_pos hover]
    exact h
  | false =>
    suffices hsvcs : ∀ i z, (s.step r).svcs[i]? = some z →
        (z.killed = true → ShutAct.kill i ∈ s.acts ++ s.roundActs r) ∧
          (z.termAt ≠ 0 → ∃ pids, ShutAct.term i pids ∈ s.acts ++ s.roundActs r) by
      have hacts := acts_step (r := r) hover
      exact ⟨fun i x hx => hacts ▸ (hsvcs i x hx).1, fun i x hx => hacts ▸ (hsvcs i x hx).2⟩
    intro i z hz
    simp only [Shutdown.step, hover, Bool.false_eq_true, if_false] at hz
    split at hz
    next halive =>
      rw [getElem?_map, getElem?_stop, Option.map_map] at hz
      obtain ⟨y, hy, rfl⟩ := map_eq_some_iff.mp hz
      have hbefore := h.checked hy
      have hstop := recorded_of_shutStop (shutStop_cases r (s.hold r) (s.blocked r i) i y)
      constructor
      · intro hz
        rcases hstop.1 hz with hy' | ha
        · exact mem_append_left _ (hbefore.1 hy')
        · exact mem_append_right _ (mem_roundActs_of_stop halive hy ha)
      · intro hz
        rcases hstop.2 hz with hy' | ⟨pids, ha⟩
        · obtain ⟨pids, ha⟩ := hbefore.2 hy'
          exact ⟨pids, mem_append_left _ ha⟩
        · exact ⟨pids, mem_append_right _ (mem_roundActs_of_stop halive hy ha)⟩
    next =>
      have hbefore := h.checked hz
      refine ⟨fun hz => mem_append_left _ (hbefore.1 hz), fun hz => ?_⟩
      obtain ⟨pids, ha⟩ := hbefore.2 hz
      exact ⟨pids, mem_append_left _ ha⟩

def Runs (services : List Service) (groups : List Group) (now : Nat) (s : Shutdown) : Prop :=
  Run.Reaches step (fun _ _ => True) (Shutdown.begin services groups now) s

theorem Runs.recorded {services : List Service} {groups : List Group} {now : Nat} (h : Runs services groups now s) :
    s.Recorded :=
  h.invariant Recorded (.begin services groups now) fun _ r hu _ => hu.step r

/-! ## The order -/

/-- Service `j` has a live process when the round begins and was not sent SIGKILL. -/
def Up (s : Shutdown) (r : ShutRound) (j : Nat) : Prop :=
  ∃ x, (s.found r)[j]? = some x ∧ svcSignalAll r x.svc ≠ [] ∧ ShutAct.kill j ∉ s.acts

def Depends (s : Shutdown) (j i : Nat) : Prop :=
  ∃ x, s.svcs[j]? = some x ∧ shutDependsOn s.groups x.svc i = true

def StopFirst (s : Shutdown) (j : Nat) : Prop :=
  ∃ x, s.svcs[j]? = some x ∧ x.svc.flags.stopFirst = true

theorem Up.checked {j : Nat} (h : s.Up r j) (hrec : s.Recorded) : ∃ y, (s.checked r)[j]? = some y ∧ y.alive = true := by
  obtain ⟨x, hx, hproc, hkill⟩ := h
  have hchecked : (s.checked r)[j]? = some (shutCheck r s.first j x).1 := by
    rw [getElem?_checked, hx]
    rfl
  have hmark : (shutCheck r s.first j x).1.mark = x.mark := shutCheck_mark
  simp only [ShutSvc.mark, Prod.mk.injEq] at hmark
  have hkilled : x.killed = false := by
    cases hx' : x.killed with
    | false => rfl
    | true => exact absurd ((hrec.checked hchecked).1 (hmark.2.1.trans hx')) hkill
  exact ⟨_, hchecked, shutCheck_alive hkilled hproc⟩

theorem settings_checked {x y : ShutSvc} (hx : s.svcs[i]? = some x) (hy : (s.checked r)[i]? = some y) :
    y.svc.settings = x.svc.settings := by
  obtain ⟨x', hx', hmark⟩ := exists_of_checked hy
  obtain rfl := some.inj (hx.symm.trans hx')
  simp only [ShutSvc.mark, Prod.mk.injEq] at hmark
  exact hmark.1.symm

theorem hold_of_alive {j : Nat} {y : ShutSvc} (hy : (s.checked r)[j]? = some y) (halive : y.alive = true)
    (hfirst : y.svc.flags.stopFirst = true) : s.hold r = true := by
  apply any_eq_true.mpr
  exact ⟨y, mem_of_getElem? hy, by simp [halive, hfirst]⟩

theorem dependedOn_of_alive {j : Nat} {y : ShutSvc} (hy : (s.checked r)[j]? = some y) (halive : y.alive = true)
    (hne : j ≠ i) (hdep : shutDependsOn s.groups y.svc i = true) : s.dependedOn r i = true := by
  obtain ⟨hlt, hget⟩ := List.getElem?_eq_some_iff.mp hy
  apply List.any_eq_true.mpr
  refine ⟨j, List.mem_range.mpr hlt, ?_⟩
  simp [hy, hne, halive, hdep]

end Shutdown

/-- Two services, the first of which depends on the second; their processes are 10 and 11. -/
def pairUp : List Service :=
  let up (s : Service) (pid : Nat) : Service := { s with rt.childPid := pid }
  let a := Service.fresh { name := cstr "a", exec := cstr "/bin/a", depName := [cstr "b"] } {}
  let b := Service.fresh { name := cstr "b", exec := cstr "/bin/b" } {}
  (validateAndResolve [up a 10, up b 11] []).1

def bothUp : ShutRound where
  world := { now := ⟨5, 0⟩, alive := fun p => p = 10 || p = 11 }

def secondUp : ShutRound where
  world := { now := ⟨6, 0⟩, alive := fun p => p = 11 }
  reaped := [10]

/-- In every round of every run, before the phase is too old: a service that is sent SIGTERM or
whose `exec_stop` begins has no other service depending on it that was up when the round began,
and if it is not `stop_first`, no `stop_first` service was up. -/
theorem shutdown_keeps_order {services : List Service} {groups : List Group} {now : Nat} {s : Shutdown}
    (h : s.Runs services groups now) (r : ShutRound) (hphase : u64Sub r.now (s.phaseStart r) < shutTotalMs)
    {a : ShutAct} {i : Nat} (hgoes : a.Goes i) (ha : a ∈ s.roundActs r) :
    (∀ j, j ≠ i → s.Depends j i → ¬ s.Up r j) ∧ (¬ s.StopFirst i → ∀ j, s.StopFirst j → ¬ s.Up r j) := by
  obtain ⟨y, hy, -, -, hfirst, hfree⟩ := Shutdown.free_of_goes hgoes ha
  constructor
  · rintro j hne ⟨x, hx, hdep⟩ hup
    obtain ⟨z, hz, halive⟩ := hup.checked h.recorded
    have hsettings := Shutdown.settings_checked hx hz
    have hdep' : shutDependsOn s.groups z.svc i = true := by
      rw [← shutDependsOn_settings, hsettings, shutDependsOn_settings, hdep]
    have hdepended := Shutdown.dependedOn_of_alive hz halive hne hdep'
    rw [Shutdown.blocked, hdepended, decide_eq_true hphase] at hfree
    cases hfree
  · rintro hnot j ⟨x, hx, hflag⟩ hup
    obtain ⟨z, hz, halive⟩ := hup.checked h.recorded
    have hzflag : z.svc.flags.stopFirst = true := by
      rw [← settings_flags, Shutdown.settings_checked hx hz, settings_flags, hflag]
    have hyflag := hfirst (Shutdown.hold_of_alive hz halive hzflag)
    obtain ⟨x', hx', -⟩ := Shutdown.exists_of_checked hy
    have hsettings := Shutdown.settings_checked hx' hy
    refine hnot ⟨x', hx', ?_⟩
    rw [← settings_flags, ← hsettings, settings_flags, hyflag]

theorem shutdown_keeps_order_pair : let s := (Shutdown.begin pairUp [] 5000).step bothUp
    ShutAct.term 1 [11] ∈ s.roundActs secondUp ∧ s.Depends 0 1 ∧ ¬ s.Up secondUp 0 := by
  have hrun : ((Shutdown.begin pairUp [] 5000).step bothUp).Runs pairUp [] 5000 := (Run.Reaches.refl _).tail trivial
  have hacts : ShutAct.term 1 [11] ∈
    ((Shutdown.begin pairUp [] 5000).step bothUp).roundActs secondUp := by decide +kernel
  have hdep : ((Shutdown.begin pairUp [] 5000).step bothUp).Depends 0 1 := ⟨_, rfl, by decide +kernel⟩
  have horder := shutdown_keeps_order hrun secondUp (by decide +kernel) (.term [11]) hacts
  exact ⟨hacts, hdep, horder.1 0 (by decide) hdep⟩

end SchemaInit.Engine
