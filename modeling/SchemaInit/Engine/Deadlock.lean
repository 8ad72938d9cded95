/-
# `SchemaInit.Engine.Deadlock` — which configurations can start

`validate_and_resolve` accepts a configuration if the depth-first search finds no
cycle.  The search follows the dependencies on services; `service_deps_ready` also
waits for groups, whose state comes from their members.  So an accepted
configuration can still hold a set of services that wait for each other.

    accepted   ⟹   (no deadlock at start-up  ⟺  no service depends on a group with a
                     member that depends on it)                   (`startup_free_iff`)

A service waits for another if one of its dependencies is that service, or a group
with that service as a member, and is never seen satisfied while the other one is in
`NEW_PROCESS` (`Waits`).  A timer waits as any other service does once it has fired; as a
member of a group it is seen in `PERFECT` before that, so nothing waits for it there.
-/
import SchemaInit.Lib.WaitFor
import SchemaInit.Engine.Resolve

namespace SchemaInit.Engine

open Option List Relation

/-! ## Waiting -/

/-- The table with each service in the given state. -/
def withStates (table : List Service) (st : Nat → State) : List Service :=
  table.mapIdx fun i s => { s with rt.inst.state := st i }

/-- How `service_deps_ready` sees one dependency: the states of the services now, and
those of the groups from the pass before. -/
def slotReady (table : List Service) (groups : List Group) (prev now : Nat → State)
    (s : Service) (k : Nat) : Bool :=
  depReady (withStates table now)
    ((groupsUpdate groups (svcStates (withStates table prev))).map (·.state))
    (s.depIdx.getD k none) (s.grpDepIdx.getD k none)

/-- Slot `k` names service `t`. -/
def Service.OnService (s : Service) (k t : Nat) : Prop :=
  s.depIdx.getD k none = some t

/-- Slot `k` names a group with `t` as a member. -/
def Service.OnGroup (groups : List Group) (s : Service) (k t : Nat) : Prop :=
  ∃ g grp, s.grpDepIdx.getD k none = some g ∧ groups[g]? = some grp ∧ some t ∈ grp.memberIdx

/-- The service is no timer, which a group sees in `PERFECT` until it has started. -/
def NoTimer (table : List Service) (i : Nat) : Prop :=
  ∃ s, table[i]? = some s ∧ s.flags.timer = false

/-- Service `i` has a dependency on `t` that it cannot see satisfied before `t` has left
`NEW_PROCESS`. -/
def Waits (table : List Service) (groups : List Group) (i t : Nat) : Prop :=
  ∃ s, table[i]? = some s ∧ ∃ k < min s.depSlots maxDeps,
    (s.OnService k t ∨ s.OnGroup groups k t ∧ NoTimer table t) ∧
    ∀ prev now : Nat → State, prev t = .newProcess → now t = .newProcess →
      slotReady table groups prev now s k = false

/-- Some services, not none, each wait for one of them. -/
def Deadlock (table : List Service) (groups : List Group) : Prop :=
  ∃ S : Set Nat, WaitFor.Stuck (Waits table groups) S

/-! ## Dependencies as the configuration names them -/

/-- Service `i` has a dependency on service `t`. -/
def DependsOnService (table : List Service) (i t : Nat) : Prop :=
  t < table.length ∧ ∃ s, table[i]? = some s ∧ ∃ k < min s.depSlots maxDeps, s.OnService k t

/-- Service `i` has a dependency on a group with the member `t`, which is no timer. -/
def DependsOnGroup (table : List Service) (groups : List Group) (i t : Nat) : Prop :=
  NoTimer table t ∧
    ∃ s, table[i]? = some s ∧ ∃ k < min s.depSlots maxDeps, s.OnGroup groups k t

/-- A service depends on a group with a member that depends on it, directly or through
others. -/
def GroupCycle (table : List Service) (groups : List Group) : Prop :=
  ∃ i t, DependsOnGroup table groups i t ∧
    ReflTransGen (fun a b => DependsOnService table a b ∨ DependsOnGroup table groups a b) t i

/-! ## A group is not up before its members -/

theorem aggregateLoop_unstable {states : List State} {l : List (Option Nat)} {starting : Bool}
    (h : starting = true ∨ ∃ t, states[t]? = some .newProcess ∧ some t ∈ l) (a b : Bool) :
    (aggregateLoop states l starting a b).stable = false := by
  induction l generalizing starting a b with
  | nil =>
    obtain rfl := h.resolve_right (by simp)
    rfl
  | cons o rest ih =>
    cases o with
    | none => rfl
    | some k =>
      cases hk : states[k]? with
      | none => simp only [aggregateLoop, hk]; rfl
      | some s =>
        have hrest : starting = true ∨ s = .newProcess ∨
            ∃ t, states[t]? = some .newProcess ∧ some t ∈ rest := by
          simp only [mem_cons, some.injEq] at h
          rcases h with h | ⟨t, ht, rfl | hmem⟩
          · exact .inl h
          · exact .inr (.inl (some.inj (hk.symm.trans ht)))
          · exact .inr (.inr ⟨t, ht, hmem⟩)
        cases s <;> simp [aggregateLoop, hk]
        case excised | friction | recovery => rfl
        case newProcess => exact ih (.inl rfl) ..
        all_goals first | exact ih (.inl rfl) .. | exact ih (by simpa using hrest) ..

theorem groupsUpdate_member {groups : List Group} {states : List State} {g t : Nat} {grp : Group}
    (hg : groups[g]? = some grp) (hmem : some t ∈ grp.memberIdx)
    (ht : states[t]? = some .newProcess) :
    (((groupsUpdate groups states).map (·.state))[g]?).any State.stable = false := by
  have hne : grp.memberIdx.isEmpty = false := by
    cases hm : grp.memberIdx with
    | nil => simp [hm] at hmem
    | cons _ _ => rfl
  simp only [groupsUpdate, List.map_map, List.getElem?_map, hg, map_some, Function.comp_apply,
    any_some]
  split
  · rfl
  · simpa [aggregate, hne] using aggregateLoop_unstable (.inr ⟨t, ht, hmem⟩) true false

theorem getElem?_withStates (table : List Service) (st : Nat → State) (i : Nat) :
    (withStates table st)[i]? = (table[i]?).map fun s => { s with rt.inst.state := st i } := by
  simp [withStates]

theorem svcStates_withStates {table : List Service} {st : Nat → State} {t : Nat}
    (ht : NoTimer table t) (hst : st t = .newProcess) :
    (svcStates (withStates table st))[t]? = some .newProcess := by
  obtain ⟨s, hs, htimer⟩ := ht
  simp [svcStates, getElem?_withStates, hs, htimer, hst]

/-! ## A resolved table -/

/-- No slot names a service and a group. -/
def Service.Resolved (s : Service) : Prop :=
  ∀ k < min s.depSlots maxDeps, ∀ g, s.grpDepIdx.getD k none = some g → s.depIdx.getD k none = none

theorem getD_fillSlots {vals old : List (Option Nat)} {k : Nat} (hk : k < vals.length) :
    (fillSlots vals old).getD k none = vals.getD k none := by
  simp [fillSlots, getElem?_append_left hk]

theorem resolveService_resolved (table : List Service) (groups : List Group) (s : Service) :
    (resolveService table groups s).Resolved := by
  intro k hk g hg
  have hlen : k < ((s.conf.depName.takeWhile fun n => !n.isEmpty).take maxDeps).length := by
    simpa [Service.depSlots, resolveService, Nat.min_comm] using hk
  simp only [resolveService] at hg ⊢
  rw [getD_fillSlots (by simpa using hlen)] at hg ⊢
  simp only [getD_eq_getElem?_getD, getElem?_map, getElem?_eq_getElem hlen, map_some,
    getD_some] at hg ⊢
  split at hg
  · cases hg
  case isFalse hnone => simpa using hnone

theorem mem_depEdges {table : List Service} {i t k : Nat} {s : Service} (hs : table[i]? = some s)
    (hon : s.OnService k t) (ht : t < table.length) : t ∈ depEdges table i := by
  have hmem : some t ∈ s.depIdx := by
    have : s.depIdx[k]? = some (some t) := by
      cases hk : s.depIdx[k]? with
      | none => simp [Service.OnService, hk] at hon
      | some o => simpa [Service.OnService, hk] using hon
    exact mem_of_getElem? this
  simpa [depEdges, hs, ht] using hmem

/-! ## Waiting is depending -/

section
variable {table : List Service} {groups : List Group} {i t : Nat}

theorem DependsOnService.waits (h : DependsOnService table i t) : Waits table groups i t := by
  obtain ⟨ht, s, hs, k, hk, hon⟩ := h
  refine ⟨s, hs, k, hk, .inl hon, fun prev now _ hnow => ?_⟩
  simp only [Service.OnService] at hon
  simp only [slotReady, depReady, hon, getElem?_withStates, getElem?_eq_getElem ht, hnow, map_some]
  rfl

theorem DependsOnGroup.waits (hres : ∀ s ∈ table, s.Resolved)
    (h : DependsOnGroup table groups i t) : Waits table groups i t := by
  obtain ⟨ht, s, hs, k, hk, g, grp, hgi, hg, hmem⟩ := h
  refine ⟨s, hs, k, hk, .inr ⟨⟨g, grp, hgi, hg, hmem⟩, ht⟩, fun prev now hprev _ => ?_⟩
  have hdi := hres s (mem_of_getElem? hs) k hk g hgi
  simp only [slotReady, depReady, hdi, hgi]
  exact groupsUpdate_member hg hmem (svcStates_withStates ht hprev)

theorem Waits.depends (ht : t < table.length) (h : Waits table groups i t) :
    DependsOnService table i t ∨ DependsOnGroup table groups i t := by
  obtain ⟨s, hs, k, hk, hon | ⟨hon, htimer⟩, _⟩ := h
  · exact .inl ⟨ht, s, hs, k, hk, hon⟩
  · exact .inr ⟨htimer, s, hs, k, hk, hon⟩

theorem Waits.lt (h : Waits table groups i t) : i < table.length := by
  obtain ⟨s, hs, _⟩ := h
  exact (List.getElem?_eq_some_iff.mp hs).1

theorem rank_of_accepted (h : servicesCheckCycles table = 0) :
    ∃ rank : Nat → Nat, ∀ a b, DependsOnService table a b → rank b < rank a := by
  have hin : ∀ v, ∀ d ∈ depEdges table v, d < table.length := fun v d hd => by
    simpa using (mem_filter.mp hd).2
  obtain ⟨rank, hrank⟩ := Dfs.rank_of_search hin h
  refine ⟨rank, fun a b ⟨hb, s, hs, k, _, hon⟩ => ?_⟩
  exact hrank a (List.getElem?_eq_some_iff.mp hs).1 b (mem_depEdges hs hon hb)

theorem deadlock_iff_groupCycle (hres : ∀ s ∈ table, s.Resolved)
    (h : servicesCheckCycles table = 0) : Deadlock table groups ↔ GroupCycle table groups := by
  obtain ⟨rank, hrank⟩ := rank_of_accepted h
  constructor
  · rintro ⟨S, hne, hall⟩
    have hlt : ∀ a ∈ S, a < table.length := fun a ha => by
      obtain ⟨b, _, hab⟩ := hall a ha
      exact hab.lt
    have hfin : S.Finite :=
      (Finset.finite_toSet (Finset.range table.length)).subset fun i hi => by simpa using hlt i hi
    have hstuck : WaitFor.Stuck
        (fun a b => DependsOnService table a b ∨ DependsOnGroup table groups a b) S := by
      refine ⟨hne, fun a ha => ?_⟩
      obtain ⟨b, hb, hab⟩ := hall a ha
      exact ⟨b, hb, hab.depends (hlt b hb)⟩
    obtain ⟨a, hcycle⟩ := WaitFor.cycle_of_stuck hfin hstuck
    exact WaitFor.edge_of_cycle hrank hcycle
  · rintro ⟨i, t, hgroup, hpath⟩
    obtain ⟨hne, hall⟩ := WaitFor.stuck_of_cycle (.inr hgroup) hpath
    refine ⟨_, hne, fun u hu => ?_⟩
    obtain ⟨v, hv, huv⟩ := hall u hu
    exact ⟨v, hv, huv.elim (·.waits) (·.waits hres)⟩

end

/-- An accepted configuration can start unless a service depends on a group with a
member that depends on it. -/
theorem startup_free_iff (table : List Service) (groups : List Group)
    (h : (validateAndResolve table groups).2.2 = 0) :
    ¬ Deadlock (validateAndResolve table groups).1 (validateAndResolve table groups).2.1 ↔
      ¬ GroupCycle (validateAndResolve table groups).1 (validateAndResolve table groups).2.1 := by
  refine not_congr (deadlock_iff_groupCycle ?_ h)
  intro s hs
  obtain ⟨s, _, rfl⟩ := mem_map.mp hs
  exact resolveService_resolved table groups s

/-! ### Two accepted configurations -/

def dependent (name dep : String) : Service :=
  .fresh { name := cstr name, exec := cstr "/bin/x", depName := [cstr dep] } {}

def standalone (name : String) : Service :=
  .fresh { name := cstr name, exec := cstr "/bin/x" } {}

def sampleGroup (member : String) : Group := { name := cstr "net", memberName := [cstr member] }

/-- `a` depends on the group of `b`, which depends on nothing. -/
def freeTable : List Service := [dependent "a" "net", standalone "b"]

/-- Start-up goes through. -/
theorem startup_free_other :
    (validateAndResolve freeTable [sampleGroup "b"]).2.2 = 0 ∧
      ¬ Deadlock (validateAndResolve freeTable [sampleGroup "b"]).1
        (validateAndResolve freeTable [sampleGroup "b"]).2.1 := by
  have h : (validateAndResolve freeTable [sampleGroup "b"]).2.2 = 0 := by decide +kernel
  refine ⟨h, (startup_free_iff _ _ h).mpr ?_⟩
  -- the group has the second service alone, and that one has no dependency slot
  have hnone : ∀ s, (validateAndResolve freeTable [sampleGroup "b"]).1[1]? = some s →
      ∀ k, ¬ k < min s.depSlots maxDeps := by
    rintro s hs k hk
    obtain rfl := some.inj hs
    exact absurd hk (Nat.not_lt_zero k)
  rintro ⟨i, t, ⟨_, s, hs, k, hk, g, grp, _, hg, hmem⟩, hpath⟩
  have ht : t = 1 := by
    match g, hg with
    | 0, hg =>
      obtain rfl := some.inj hg
      have hmembers : some t ∈ [some 1] := hmem
      simpa using hmembers
  subst ht
  rcases ReflTransGen.cases_head hpath with rfl | ⟨c, ⟨_, s, hs, k, hk, _⟩ | ⟨_, s, hs, k, hk, _⟩, _⟩
  all_goals exact hnone s hs k hk

/-- `a` depends on a group with `a` as its member: accepted, and `a` waits for itself. -/
theorem startup_deadlock_group :
    (validateAndResolve [dependent "a" "net"] [sampleGroup "a"]).2.2 = 0 ∧
      Deadlock (validateAndResolve [dependent "a" "net"] [sampleGroup "a"]).1
        (validateAndResolve [dependent "a" "net"] [sampleGroup "a"]).2.1 := by
  refine ⟨by decide +kernel, {0}, ⟨0, rfl⟩, ?_⟩
  rintro i rfl
  refine ⟨0, rfl, DependsOnGroup.waits ?_
    ⟨⟨_, rfl, rfl⟩, _, rfl, 0, by decide +kernel, 0, _, ?_, rfl, ?_⟩⟩
  · intro s hs
    obtain ⟨s, _, rfl⟩ := mem_map.mp hs
    exact resolveService_resolved _ _ s
  · decide +kernel
  · decide +kernel

end SchemaInit.Engine
