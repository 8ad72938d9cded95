/-
# `SchemaInit.Engine.ShutdownStall` — rounds in which nothing moves

In `shutdown_ordered` an alive service waits for the alive services that depend on it,
and one that is not `stop_first` for every alive `stop_first` service.  Which of them
are alive is up to the outside, so some alive service gets on in every round exactly
if no set of services is stuck in this relation, that is, if it has no cycle.

A cycle of dependencies is refused by `services_check_cycles`, unless it goes through
a group.  The other kind of cycle has two members: a `stop_first` service and a
service that depends on it and is not `stop_first`.  `Orderable` says that there is
neither.
-/
import SchemaInit.Lib.WaitFor
import SchemaInit.Engine.Shutdown

namespace SchemaInit.Engine

open Service Bool Option List Relation

/-! ## Who waits for whom -/

section
variable (table : List Service) (groups : List Group)

def stopsFirst (i : Nat) : Prop :=
  (table.getD i default).flags.stopFirst = true

structure GoesAfter (i j : Nat) : Prop where
  ne : j ≠ i
  left : i < table.length
  right : j < table.length
  dep : shutDependsOn groups (table.getD j default) i = true

inductive ShutWaits (i j : Nat) : Prop where
  | dep (h : GoesAfter table groups i j)
  | first (hi : i < table.length) (hj : j < table.length) (hij : stopsFirst table j ∧ ¬ stopsFirst table i)

/-- No cycle of dependencies, and only `stop_first` services depend on a `stop_first` service. -/
structure Orderable : Prop where
  acyclic : ∀ i, ¬ TransGen (GoesAfter table groups) i i
  first : ∀ i j, GoesAfter table groups i j → stopsFirst table i → stopsFirst table j

end

variable {table : List Service} {groups : List Group} {i j : Nat}

theorem ShutWaits.stopsFirst (h : ShutWaits table groups i j) (ho : Orderable table groups) (hi : stopsFirst table i) :
    Engine.stopsFirst table j := by
  cases h with
  | dep h => exact ho.first i j h hi
  | first _ _ hij => exact hij.1

theorem stopsFirst_of_path (ho : Orderable table groups) (h : TransGen (ShutWaits table groups) i j)
    (hi : stopsFirst table i) : stopsFirst table j := by
  induction h with
  | single h => exact h.stopsFirst ho hi
  | tail _ h ih => exact h.stopsFirst ho ih

/-- A path that does not end among the `stop_first` services, or began there, is one of
dependencies: a step onto them cannot be taken back. -/
theorem path_of_dependencies (ho : Orderable table groups) (h : TransGen (ShutWaits table groups) i j)
    (hends : stopsFirst table j → stopsFirst table i) : TransGen (GoesAfter table groups) i j := by
  induction h with
  | single h =>
    cases h with
    | dep h => exact .single h
    | first _ _ hij => exact absurd (hends hij.1) hij.2
  | tail hpath h ih =>
    cases h with
    | dep h => exact .tail (ih fun hmid => hends (ho.first _ _ h hmid)) h
    | first _ _ hij => exact absurd (stopsFirst_of_path ho hpath (hends hij.1)) hij.2

theorem orderable_iff : Orderable table groups ↔ ∀ i, ¬ TransGen (ShutWaits table groups) i i := by
  constructor
  · intro ho i hcycle
    exact ho.acyclic i (path_of_dependencies ho hcycle id)
  · intro hno
    refine ⟨fun i hcycle => hno i (hcycle.lift id fun _ _ => ShutWaits.dep), fun i j hij hi => ?_⟩
    by_contra hj
    exact hno i (.head (.dep hij) (.single (.first hij.right hij.left ⟨hi, hj⟩)))

/-! ## Every run has the tables it began with -/

namespace Shutdown

variable {s : Shutdown} {r : ShutRound}

structure Tables (table : List Service) (groups : List Group) (s : Shutdown) : Prop where
  svcs : (s.svcs.map fun x => x.svc.settings) = table.map Service.settings
  groups : s.groups = groups

theorem shutStop_settings {hold blocked : Bool} {x : ShutSvc} :
    (shutStop r hold blocked i x).1.svc.settings = x.svc.settings := by
  have hcases := shutStop_cases r hold blocked i x
  generalize shutStop r hold blocked i x = out at hcases
  obtain ⟨y, acts⟩ := out
  cases hcases with
  | goes _ _ _ _ hnext =>
    cases hnext with
    | waits _ hmark | stopBegin hmark => exact congrArg Prod.fst hmark
    | term hsettings => exact hsettings
  | _ => rfl

theorem checked_settings (s : Shutdown) (r : ShutRound) :
    ((s.checked r).map fun x => x.svc.settings) = s.svcs.map fun x => x.svc.settings := by
  have hmark := congrArg (List.map Prod.fst) (checked_mark (s := s) (r := r))
  rw [List.map_map, List.map_map] at hmark
  exact hmark

theorem Tables.step {table : List Service} {groups : List Group} (h : s.Tables table groups) (r : ShutRound) :
    (s.step r).Tables table groups := by
  unfold Shutdown.step
  split
  · exact h
  · split
    · refine ⟨?_, h.groups⟩
      rw [← h.svcs, ← checked_settings s r]
      apply ext_getElem?
      intro i
      simp only [getElem?_map, getElem?_stop, Option.map_map]
      congr 1
      funext x
      exact shutStop_settings
    · exact ⟨(checked_settings s r).trans h.svcs, h.groups⟩

def withRts (table : List Service) (rts : Nat → Rt) : List Service :=
  table.mapIdx fun i s => { s with rt := rts i }

theorem Runs.tables {table : List Service} {groups : List Group} {rts : Nat → Rt} {now : Nat}
    (h : s.Runs (withRts table rts) groups now) : s.Tables table groups := by
  refine h.invariant (Tables table groups) ⟨?_, rfl⟩ fun _ r hu _ => hu.step r
  apply ext_getElem?
  intro i
  simp only [Shutdown.begin, withRts, getElem?_map, getElem?_mapIdx, Option.map_map]
  rfl

theorem Tables.checked {table : List Service} {groups : List Group} (h : s.Tables table groups) {y : ShutSvc}
    (hy : (s.checked r)[i]? = some y) : i < table.length ∧ y.svc.settings = (table.getD i default).settings := by
  have heq := congrArg (·[i]?) ((checked_settings s r).trans h.svcs)
  simp only [getElem?_map, hy, map_some] at heq
  obtain ⟨t, ht, hsettings⟩ := map_eq_some_iff.mp heq.symm
  refine ⟨(List.getElem?_eq_some_iff.mp ht).1, ?_⟩
  rw [← hsettings, getD_eq_getElem?_getD, ht]
  rfl

/-! ## Getting on -/

/-- Service `i` is alive and gets on: it was sent SIGTERM, its stop or post command runs, or it goes
in this round. -/
def GetsOn (s : Shutdown) (r : ShutRound) (i : Nat) : Prop :=
  ∃ y, (s.checked r)[i]? = some y ∧ y.alive = true ∧
    ((∃ pids, ShutAct.term i pids ∈ s.acts) ∨ 0 < y.svc.rt.stop.pid ∨ ∃ a ∈ s.roundActs r, a.Goes i)

def aliveSet (s : Shutdown) (r : ShutRound) : Set Nat :=
  { i | ∃ y, (s.checked r)[i]? = some y ∧ y.alive = true }

theorem aliveSet_nonempty (h : s.anyAlive r = true) : (s.aliveSet r).Nonempty := by
  obtain ⟨y, hmem, hy⟩ := any_eq_true.mp h
  obtain ⟨i, hi⟩ := getElem?_of_mem hmem
  exact ⟨i, y, hi, hy⟩

theorem alive_of_hold (h : s.hold r = true) :
    ∃ (j : Nat) (y : ShutSvc), (s.checked r)[j]? = some y ∧ y.alive = true ∧ y.svc.flags.stopFirst = true := by
  obtain ⟨y, hmem, hy⟩ := any_eq_true.mp h
  obtain ⟨j, hj⟩ := getElem?_of_mem hmem
  simp only [and_eq_true] at hy
  exact ⟨j, y, hj, hy⟩

theorem alive_of_dependedOn (h : s.dependedOn r i = true) :
    ∃ (j : Nat) (y : ShutSvc), (s.checked r)[j]? = some y ∧ y.alive = true ∧ j ≠ i ∧
      shutDependsOn s.groups y.svc i = true := by
  obtain ⟨j, hmem, hj⟩ := any_eq_true.mp h
  have hlt := mem_range.mp hmem
  have hget : (s.checked r)[j]? = some (s.checked r)[j] := getElem?_eq_getElem hlt
  simp only [getD_eq_getElem?_getD, hget, getD_some, and_eq_true, decide_eq_true_eq, ne_eq] at hj
  exact ⟨j, _, hget, hj.1.2, hj.1.1, hj.2⟩

theorem waits_of_not_getsOn (ht : s.Tables table groups) (hrec : s.Recorded) {y : ShutSvc}
    (hy : (s.checked r)[i]? = some y) (halive : y.alive = true) (hno : ¬ s.GetsOn r i) :
    ∃ j ∈ s.aliveSet r, ShutWaits table groups i j := by
  have hterm : ¬ ∃ pids, ShutAct.term i pids ∈ s.acts := fun h => hno ⟨y, hy, halive, .inl h⟩
  have hrun : ¬ 0 < y.svc.rt.stop.pid := fun h => hno ⟨y, hy, halive, .inr (.inl h)⟩
  have hgoes : ∀ a ∈ s.roundActs r, ¬ a.Goes i := fun a ha h => hno ⟨y, hy, halive, .inr (.inr ⟨a, ha, h⟩)⟩
  have hany : s.anyAlive r = true := any_eq_true.mpr ⟨y, mem_of_getElem? hy, halive⟩
  obtain ⟨hlt, hsettings⟩ := ht.checked hy
  have hcases := shutStop_cases r (s.hold r) (s.blocked r i) i y
  have hacts : ∀ a ∈ (shutStop r (s.hold r) (s.blocked r i) i y).2, ¬ a.Goes i :=
    fun a ha => hgoes a (mem_roundActs_of_stop hany hy ha)
  generalize shutStop r (s.hold r) (s.blocked r i) i y = out at hcases hacts
  obtain ⟨z, acts⟩ := out
  cases hcases with
  | gone h => rw [halive] at h; cases h
  | grace _ h => exact absurd ((hrec.checked hy).2 h) hterm
  | kill _ h => exact absurd ((hrec.checked hy).2 h) hterm
  | held _ _ hhold hfirst =>
    obtain ⟨j, x, hx, hxalive, hxfirst⟩ := alive_of_hold hhold
    obtain ⟨hjlt, hxsettings⟩ := ht.checked hx
    refine ⟨j, ⟨x, hx, hxalive⟩, .first hlt hjlt ⟨?_, ?_⟩⟩
    · rw [stopsFirst, ← settings_flags, ← hxsettings]
      exact hxfirst
    · rw [stopsFirst, ← settings_flags, ← hsettings, settings_flags, hfirst]
      exact false_ne_true
  | blocked _ _ hblocked =>
    obtain ⟨j, x, hx, hxalive, hne, hdep⟩ := alive_of_dependedOn (and_eq_true_iff.mp hblocked).2
    obtain ⟨hjlt, hxsettings⟩ := ht.checked hx
    refine ⟨j, ⟨x, hx, hxalive⟩, .dep ⟨hne, hlt, hjlt, ?_⟩⟩
    rw [← shutDependsOn_settings, ← hxsettings, shutDependsOn_settings, ← ht.groups, hdep]
  | goes _ _ _ _ hnext =>
    cases hnext with
    | waits h => exact absurd h hrun
    | stopBegin => exact absurd .stopBegin (hacts _ (mem_singleton_self _))
    | term _ _ h =>
      rcases h with rfl | ⟨pid, rfl⟩
      · exact absurd (.term _) (hacts _ (mem_singleton_self _))
      · exact absurd (.term _) (hacts _ (mem_cons_of_mem _ (mem_singleton_self _)))

theorem stuck_of_idle (ht : s.Tables table groups) (hrec : s.Recorded) (hany : s.anyAlive r = true)
    (hno : ¬ ∃ i, s.GetsOn r i) : WaitFor.Stuck (ShutWaits table groups) (s.aliveSet r) := by
  refine ⟨aliveSet_nonempty hany, ?_⟩
  rintro i ⟨y, hy, halive⟩
  exact waits_of_not_getsOn ht hrec hy halive fun h => hno ⟨i, h⟩

/-! ## A first round with any services alive -/

noncomputable def rtsOf (S : Set Nat) (i : Nat) : Rt :=
  open Classical in { (default : Rt) with childPid := if i ∈ S then i + 1 else 0, cgroupPath := [], stop := {} }

def quietRound : ShutRound where
  world := { alive := fun _ => true }

variable {S : Set Nat}

theorem shutCheck_first (t : Service) (i : Nat) :
    let x := (shutCheck quietRound true i { svc := { t with rt := rtsOf S i } }).1
    (x.alive = true ↔ i ∈ S) ∧ x.svc.rt.stop.pid = 0 := by
  by_cases hi : i ∈ S
  · simp [shutCheck, shutPost, shutPostWait, svcSignalAll, rtsOf, quietRound, hi]
  · simp [shutCheck, shutPost, shutPostWait, svcSignalAll, rtsOf, quietRound, hi]

theorem checked_first (i : Nat) : ((Shutdown.begin (withRts table (rtsOf S)) groups 0).checked quietRound)[i]? =
      table[i]?.map fun t => (shutCheck quietRound true i { svc := { t with rt := rtsOf S i } }).1 := by
  rw [getElem?_checked]
  simp [found, Shutdown.begin, withRts, shutReap, quietRound, Function.comp_def]

theorem phase_first :
    u64Sub quietRound.now ((Shutdown.begin
      (withRts table (rtsOf S)) groups 0).phaseStart quietRound) < shutTotalMs := by
  have hstart : (Shutdown.begin (withRts table (rtsOf S)) groups 0).phaseStart quietRound = 0 := rfl
  rw [hstart]
  decide

theorem idle_of_stuck (hS : ∀ i ∈ S, i < table.length) (h : WaitFor.Stuck (ShutWaits table groups) S) :
    let s := Shutdown.begin (withRts table (rtsOf S)) groups 0
    s.anyAlive quietRound = true ∧ ¬ ∃ i, s.GetsOn quietRound i := by
  intro s
  have ht : s.Tables table groups := Runs.tables (Run.Reaches.refl _)
  have halive : ∀ i ∈ S, ∃ y, (s.checked quietRound)[i]? = some y ∧ y.alive = true := by
    intro i hi
    have hlt := hS i hi
    have hget : table[i]? = some table[i] := getElem?_eq_getElem hlt
    refine ⟨_, ?_, (shutCheck_first table[i] i).1.mpr hi⟩
    rw [checked_first, hget]
    rfl
  constructor
  · obtain ⟨i, hi⟩ := h.1
    obtain ⟨y, hy, hyalive⟩ := halive i hi
    exact any_eq_true.mpr ⟨y, mem_of_getElem? hy, hyalive⟩
  · rintro ⟨i, y, hy, hyalive, hon⟩
    have hy' := hy
    rw [checked_first] at hy'
    obtain ⟨t, htable, rfl⟩ := map_eq_some_iff.mp hy'
    have hi : i ∈ S := (shutCheck_first t i).1.mp hyalive
    obtain ⟨j, hj, hwaits⟩ := h.2 i hi
    obtain ⟨z, hz, hzalive⟩ := halive j hj
    rcases hon with ⟨pids, hacts⟩ | hrun | ⟨a, ha, hgoes⟩
    · cases hacts
    · rw [(shutCheck_first ..).2] at hrun
      exact absurd hrun (Nat.lt_irrefl 0)
    · obtain ⟨y', hy', -, -, hfirst, hfree⟩ := free_of_goes hgoes ha
      cases hwaits with
      | dep hafter =>
        have hdep : shutDependsOn s.groups z.svc i = true := by
          rw [← shutDependsOn_settings, (ht.checked hz).2, shutDependsOn_settings]
          exact hafter.dep
        have hdepended := dependedOn_of_alive hz hzalive hafter.ne hdep
        rw [blocked, hdepended, decide_eq_true phase_first] at hfree
        cases hfree
      | first _ _ hij =>
        have hzfirst : z.svc.flags.stopFirst = true := by
          rw [← settings_flags, (ht.checked hz).2]
          exact hij.1
        have hyfirst := hfirst (hold_of_alive hz hzalive hzfirst)
        refine hij.2 ?_
        rw [stopsFirst, ← settings_flags, ← (ht.checked hy').2]
        exact hyfirst

end Shutdown

/-! ## The result -/

/-- In every round of every run with this configuration, before the phase is too old, some alive
service gets on: exactly if no dependencies form a cycle and only `stop_first` services depend
on a `stop_first` service. -/
theorem shutdown_gets_on_iff (table : List Service) (groups : List Group) :
    (∀ (rts : Nat → Rt) (now : Nat) (s : Shutdown) (r : ShutRound), s.Runs (Shutdown.withRts table rts) groups now →
        u64Sub r.now (s.phaseStart r) < shutTotalMs → s.anyAlive r = true → ∃ i, s.GetsOn r i) ↔
      Orderable table groups := by
  rw [orderable_iff]
  constructor
  · intro hall i hcycle
    obtain ⟨j, hij, hji⟩ := TransGen.head'_iff.mp hcycle
    have hstuck := WaitFor.stuck_of_cycle hij hji
    have hlt : ∀ k ∈ { k | ReflTransGen (ShutWaits table groups) j k ∧ ReflTransGen (ShutWaits table groups) k i },
        k < table.length := by
      intro k hk
      obtain ⟨m, -, hkm⟩ := hstuck.2 k hk
      cases hkm with
      | dep h => exact h.left
      | first hk => exact hk
    obtain ⟨hany, hno⟩ := Shutdown.idle_of_stuck hlt hstuck
    exact hno (hall _ 0 _ Shutdown.quietRound (Run.Reaches.refl _) Shutdown.phase_first hany)
  · intro hno rts now s r hrun _ hany
    by_contra hidle
    have hstuck := Shutdown.stuck_of_idle hrun.tables hrun.recorded hany hidle
    have hfin : (s.aliveSet r).Finite := by
      refine (Finset.finite_toSet (Finset.range table.length)).subset ?_
      rintro i ⟨y, hy, -⟩
      exact Finset.mem_coe.mpr (Finset.mem_range.mpr (hrun.tables.checked hy).1)
    obtain ⟨i, hcycle⟩ := WaitFor.cycle_of_stuck hfin hstuck
    exact hno i hcycle

def sessionPair : List Service :=
  let session := Service.fresh { name := cstr "session", exec := cstr "/bin/session" } { stopFirst := true }
  let agent := Service.fresh { name := cstr "agent", exec := cstr "/bin/agent", depName := [cstr "session"] } {}
  let up (s : Service) (pid : Nat) : Service := { s with rt.childPid := pid }
  [up session 10, up agent 11]

/-- The configuration is accepted.  With both services up the first round does nothing: `session`
waits for `agent` and `agent` for `session`. -/
theorem session_and_agent_stall : (validateAndResolve sessionPair []).2.2 = 0 ∧
      let s := Shutdown.begin (validateAndResolve sessionPair []).1 [] 5000
      u64Sub bothUp.now (s.phaseStart bothUp) < shutTotalMs ∧ s.anyAlive bothUp = true ∧ ¬ ∃ i, s.GetsOn bothUp i := by
  refine ⟨by decide +kernel, by decide +kernel, by decide +kernel, ?_⟩
  rintro ⟨i, y, hy, -, hon⟩
  have hacts : (Shutdown.begin (validateAndResolve sessionPair []).1 [] 5000).roundActs bothUp = [] := by decide +kernel
  have hstop : ∀ x ∈ (Shutdown.begin (validateAndResolve sessionPair []).1 [] 5000).checked bothUp,
      x.svc.rt.stop.pid = 0 := by
    decide +kernel
  rcases hon with ⟨pids, hsent⟩ | hrun | ⟨a, ha, -⟩
  · cases hsent
  · exact absurd (hstop y (mem_of_getElem? hy)) (by omega)
  · rw [hacts] at ha
    cases ha

end SchemaInit.Engine
