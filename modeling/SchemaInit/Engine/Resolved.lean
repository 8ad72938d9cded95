/-
# `SchemaInit.Engine.Resolved` — the live table is resolved, and a refusal keeps it so

The indices of a table are recomputed from its names by every load.  In every state that
a run reaches they are what the names say, so that resolving the table once more changes
nothing (`resolved_of_reachable`): the indices move with the configuration only, and no
event but a load touches it.

`schema-ctl add` resolves the live table with the new entry in it before it looks for
cycles.  When it then takes the entry out again it has to undo that, which it does by
resolving a second time: an earlier answer leaves no trace in the slots of a service, as
every slot with a name is overwritten (`resolveService_resolveService`).
-/
import SchemaInit.Engine.Names

namespace SchemaInit.Engine

open Pid1 Service List
open Function (comp_def)

variable {table table' : List Service} {groups groups' : List Group} {s : Service} {W : Nat → World → Prop}
    {G : Pid1 → Nat → Prop} {K : Nat → Kind → Prop} {e e' : Pid1}

/-! ## What a resolution depends on -/

def Group.static (g : Group) : Bytes × List Bytes × List (Option Nat) × Bool :=
  (g.name, g.memberName, g.memberIdx, g.refused)

theorem indexOf_congr (h : svcNames table = svcNames table') (n : Bytes) : indexOf table n = indexOf table' n := by
  have hidx (t : List Service) : indexOf t n = (svcNames t).findIdx? fun m => m = n := by
    simp [indexOf, svcNames, comp_def]
  rw [hidx, hidx, h]

theorem findGroup_congr (h : groups.map Group.name = groups'.map Group.name) (n : Bytes) :
    (groups.findIdx? fun g => g.name = n) = groups'.findIdx? fun g => g.name = n := by
  have hidx (gs : List Group) : (gs.findIdx? fun g => g.name = n) = (gs.map Group.name).findIdx? fun m => m = n := by
    simp [comp_def]
  rw [hidx, hidx, h]

theorem resolveService_congr
    (h : svcNames table = svcNames table') (hg : groups.map Group.name = groups'.map Group.name) (s : Service) :
    resolveService table groups s = resolveService table' groups' s := by
  simp [resolveService, indexOf_congr h, findGroup_congr hg]

theorem resolveGroup_congr (h : svcNames table = svcNames table') (g : Group) :
    resolveGroup table g = resolveGroup table' g := by
  simp [resolveGroup, indexOf_congr h]

theorem fillSlots_fillSlots {vals vals' old : List (Option Nat)} (h : vals.length = vals'.length) :
    fillSlots vals' (fillSlots vals old) = fillSlots vals' old := by
  rw [fillSlots, fillSlots, fillSlots, ← h, drop_left']
  rfl

theorem resolveService_resolveService (table table' : List Service) (groups groups' : List Group) (s : Service) :
    resolveService table' groups' (resolveService table groups s) = resolveService table' groups' s := by
  simp only [resolveService]
  rw [fillSlots_fillSlots (by simp), fillSlots_fillSlots (by simp)]

theorem resolveGroup_resolveGroup (table table' : List Service) (g : Group) :
    resolveGroup table' (resolveGroup table g) = resolveGroup table' g := rfl

/-! ## Resolved tables -/

structure Resolved (table : List Service) (groups : List Group) : Prop where
  services : ∀ s ∈ table, resolveService table groups s = s
  groups : ∀ g ∈ groups, resolveGroup table g = g

theorem Resolved.validate (h : Resolved table groups) :
    (validateAndResolve table groups).1 = table ∧ (validateAndResolve table groups).2.1 = groups :=
  ⟨(map_congr_left h.services).trans (map_id _), (map_congr_left h.groups).trans (map_id _)⟩

theorem groupNames_resolve (table : List Service) (groups : List Group) :
    (validateAndResolve table groups).2.1.map Group.name = groups.map Group.name := by
  simp [validateAndResolve, resolveGroup, comp_def]

theorem resolved_validate (table : List Service) (groups : List Group) :
    Resolved (validateAndResolve table groups).1 (validateAndResolve table groups).2.1 := by
  have hnames := svcNames_resolve table groups
  have hgroups := groupNames_resolve table groups
  constructor
  · intro s' hs'
    obtain ⟨s, -, rfl⟩ := mem_map.mp hs'
    exact (resolveService_congr hnames hgroups _).trans (resolveService_resolveService table table groups groups s)
  · intro g' hg'
    obtain ⟨g, -, rfl⟩ := mem_map.mp hg'
    exact (resolveGroup_congr hnames _).trans (resolveGroup_resolveGroup table table g)

theorem resolveService_eq_self_iff : resolveService table groups s = s ↔
      (resolveService table groups s).depIdx = s.depIdx ∧ (resolveService table groups s).grpDepIdx = s.grpDepIdx := by
  constructor
  · intro h
    exact ⟨congrArg depIdx h, congrArg grpDepIdx h⟩
  · rintro ⟨hd, hg⟩
    show { s with depIdx := (resolveService table groups s).depIdx
                  grpDepIdx := (resolveService table groups s).grpDepIdx } = s
    rw [hd, hg]

theorem resolveService_self_of_slots {s' : Service}
    (hs : s'.slots = s.slots) (h : resolveService table groups s = s) : resolveService table groups s' = s' := by
  simp only [slots, Prod.mk.injEq] at hs
  obtain ⟨hconf, hdep, hgrp⟩ := hs
  obtain ⟨hd, hg⟩ := resolveService_eq_self_iff.mp h
  refine resolveService_eq_self_iff.mpr ⟨?_, ?_⟩
  · rw [hdep, ← hd]
    simp [resolveService, hconf, hdep]
  · rw [hgrp, ← hg]
    simp [resolveService, hconf, hgrp]

theorem resolveGroup_self_of_static {g g' : Group} (hs : g'.static = g.static)
    (h : resolveGroup table g = g) : resolveGroup table g' = g' := by
  simp only [Group.static, Prod.mk.injEq] at hs
  obtain ⟨-, hnames, hidx, -⟩ := hs
  have hg : g.memberName.map (fun n => indexOf table n) = g.memberIdx := congrArg Group.memberIdx h
  show { g' with memberIdx := g'.memberName.map fun n => indexOf table n } = g'
  rw [show g'.memberName.map (fun n => indexOf table n) = g'.memberIdx by rw [hnames, hg, hidx]]

theorem Resolved.of_same (h : Resolved table groups) (hs : table'.map slots = table.map slots)
    (hg : groups'.map Group.static = groups.map Group.static) : Resolved table' groups' := by
  have hnames : svcNames table' = svcNames table := by
    have := congrArg (List.map fun c : Conf × List (Option Nat) × List (Option Nat) => c.1.name) hs
    simpa [slots, svcNames, comp_def] using this
  have hgroups : groups'.map Group.name = groups.map Group.name := by
    have := congrArg (List.map Prod.fst) hg
    simpa [Group.static, comp_def] using this
  constructor
  · intro s' hs'
    obtain ⟨s, hs, hslots⟩ := mem_map.mp (hs ▸ mem_map_of_mem hs')
    rw [resolveService_congr hnames hgroups]
    exact resolveService_self_of_slots hslots.symm (h.services s hs)
  · intro g' hg'
    obtain ⟨g, hg, hstatic⟩ := mem_map.mp (hg ▸ mem_map_of_mem hg')
    rw [resolveGroup_congr hnames]
    exact resolveGroup_self_of_static hstatic.symm (h.groups g hg)

/-! ## Every reachable table -/

theorem groups_setCgroupFreeze (w : World) (b : Bool) (i : Nat) (e : Pid1) :
    (e.setCgroupFreeze w b i).groups = e.groups := by
  unfold setCgroupFreeze
  dsimp only
  split
  · rfl
  · split
    · rfl
    · split
      · rfl
      · split
        · rfl
        · rfl
      · rfl

theorem groups_moves (h : Moves W G K e e') : e'.groups.map Group.static = e.groups.map Group.static := by
  have hfixed {u v : Pid1} (h : v.fixed = u.fixed) : v.groups = u.groups := congrArg (fun f => f.2.1) h
  induction h with
  | refl => rfl
  | chain _ _ _ ih => exact ih
  | op _ w _ _ _ ih => rw [hfixed (keeps_apply w _ _).1, ih]
  | signal _ _ _ _ ih => exact ih
  | spawn _ w _ _ _ _ _ _ _ _ ih =>
    rw [← ih]
    exact congrArg (fun f => f.2.1.map Group.static) (keeps_foldl_apply w _ (spawnCall ..)).1
  | freeze _ w b _ _ _ ih => rw [groups_setCgroupFreeze, ih]
  | rest _ hr ih => rw [hr.groups, ih]
  | groups _ states ih =>
    rw [← ih]
    simp [groupsUpdate, Group.static, comp_def]
  | evictionTick _ w ih => rw [hfixed (keeps_evictionTick w _).1, ih]
  | evictionReaped _ w pid ih => rw [hfixed (keeps_evictionReaped w pid _).1, ih]

namespace Pid1

theorem resolved_boot (ws : Nat → World) (root : Bytes) (c : Config) :
    Resolved (boot ws root c).services (boot ws root c).groups := by
  refine (resolved_validate c.services c.groups).of_same (slots_mapIdx (fun i s => ?_) _) rfl
  split
  · exact s.slots_timerArm (ws i)
  · rfl

theorem groups_adoptConfig (w : World) (ws : Nat → World) (evict : Bool) (c : Config) (e : Pid1) :
    (e.adoptConfig w ws evict c).groups = (validateAndResolve c.services c.groups).2.1 := by
  unfold adoptConfig
  exact congrArg (fun f => f.2.1) (keeps_evictionReadded w _).1

theorem resolved_adoptConfig (w : World) (ws : Nat → World) (evict : Bool) (c : Config) (e : Pid1) :
    Resolved (e.adoptConfig w ws evict c).services (e.adoptConfig w ws evict c).groups := by
  rw [services_adoptConfig, groups_adoptConfig]
  exact (resolved_validate c.services c.groups).of_same
    ((slots_mapIdx (fun i s => s.slots_armIfNew (ws i)) _).trans (slots_merge w _ _)) rfl

theorem resolve_undone (table : List Service) (groups : List Group) (s : Service) :
    validateAndResolve ((validateAndResolve (table ++ [s]) groups).1.take table.length)
        (validateAndResolve (table ++ [s]) groups).2.1 = validateAndResolve table groups := by
  have htake : (validateAndResolve (table ++ [s]) groups).1.take table.length =
      table.map (resolveService (table ++ [s]) groups) := by
    rw [validateAndResolve, map_append, take_left' (length_map _)]
  have hnames : svcNames (table.map (resolveService (table ++ [s]) groups)) = svcNames table := by
    simp only [svcNames, map_map]
    rfl
  have hservices : (table.map (resolveService (table ++ [s]) groups)).map
      (resolveService (table.map (resolveService (table ++ [s]) groups))
        (validateAndResolve (table ++ [s]) groups).2.1) =
        table.map (resolveService table groups) := by
    rw [map_map]
    refine map_congr_left fun t _ => ?_
    exact (resolveService_congr hnames (groupNames_resolve _ _) _).trans (resolveService_resolveService ..)
  have hgroups : (validateAndResolve (table ++ [s]) groups).2.1.map
      (resolveGroup (table.map (resolveService (table ++ [s]) groups))) = groups.map (resolveGroup table) := by
    rw [validateAndResolve, map_map]
    refine map_congr_left fun g _ => ?_
    exact (resolveGroup_congr hnames _).trans (resolveGroup_resolveGroup ..)
  rw [htake, validateAndResolve, hservices, hgroups]
  rfl

theorem resolved_ctlAdd (h : Resolved e.services e.groups) (w : World) (path : Bytes) (file : Option SvcFile) :
    Resolved (e.ctlAdd w path file).1.services (e.ctlAdd w path file).1.groups := by
  unfold ctlAdd
  split
  · exact h
  · split
    · exact h
    next s hs =>
      split
      · exact h
      · dsimp only
        split
        · exact resolved_validate _ _
        · refine (resolved_validate (e.services ++ [s]) e.groups).of_same
            (slots_mod _ _ (f := fun s => if s.flags.timer then s.timerArm w else s) fun s => ?_) rfl
          split
          · exact s.slots_timerArm w
          · rfl

theorem resolved_step (h : Resolved e.services e.groups) (x : Input) :
    Resolved (e.step x).services (e.step x).groups := by
  cases step_cases e x with
  | moves hm => exact h.of_same (slots_moves hm) (groups_moves hm)
  | refused heq =>
    rw [heq]
    exact h
  | reload r _ _ heq =>
    rw [heq]
    exact resolved_adoptConfig ..
  | add w ws path file _ heq =>
    rw [heq]
    exact resolved_ctlAdd h w path file

theorem resolved_of_reachable (h : Reachable e) : Resolved e.services e.groups := by
  obtain ⟨s, ⟨ws, root, c, -, rfl⟩, hrun⟩ := h
  exact hrun.invariant (fun e => Resolved e.services e.groups) (resolved_boot ws root c) fun u x hu _ =>
    resolved_step hu x

end Pid1

/-! ## Refusals -/

theorem isErr_ok (text : Bytes) : isErr (writef (cstr "ok: " ++ text)) = false := by
  unfold isErr writef
  split
  · rfl
  · rfl

namespace Pid1

/-- A load or an `add` that is refused leaves the engine as it was: the services with all their
fields, the groups, the evictions and the descriptor store. -/
theorem refusal_changes_nothing {e : Pid1} (h : Reachable e) :
    (∀ w ws evict c, (e.handleReload w ws evict c).2 ≠ none → (e.handleReload w ws evict c).1 = e) ∧
      ∀ w path file, isErr (e.ctlAdd w path file).2 = true → (e.ctlAdd w path file).1 = e := by
  have hres := (resolved_of_reachable h).validate
  constructor
  · intro w ws evict c hrefused
    unfold handleReload at hrefused ⊢
    cases herr : reloadError e.services c with
    | some err => rfl
    | none =>
      rw [herr] at hrefused
      exact absurd rfl hrefused
  · intro w path file herr
    unfold ctlAdd at herr ⊢
    split
    · rfl
    next hroom =>
      rw [if_neg hroom] at herr
      cases hfile : file.bind svcFinalize with
      | none => rfl
      | some s =>
        rw [hfile] at herr
        dsimp only at herr ⊢
        split
        · rfl
        next hnew =>
          rw [if_neg hnew] at herr
          split
          · -- a cycle: the live tables are resolved back
            rw [show e.count = e.services.length from rfl, resolve_undone, hres.1, hres.2]
          next hcycle =>
            rw [if_neg hcycle] at herr
            rw [append_assoc, isErr_ok] at herr
            cases herr

def lonelyWeb : Pid1 :=
  boot (fun _ => {}) (cstr "/cg")
    { dir := { files := [{ fname := cstr "web.svc", conf := { name := [], exec := cstr "/bin/web", depName := [cstr "db"] } }] } }

def needyDb : SvcFile where
  fname := cstr "db.svc"
  conf := { name := [], exec := cstr "/bin/db", depName := [cstr "web"] }

theorem refusal_changes_nothing_cycle : isErr (lonelyWeb.ctlAdd {} (cstr "/tmp/db.svc") (some needyDb)).2 = true ∧
      (lonelyWeb.ctlAdd {} (cstr "/tmp/db.svc") (some needyDb)).1 = lonelyWeb := by
  have herr : isErr (lonelyWeb.ctlAdd {} (cstr "/tmp/db.svc") (some needyDb)).2 = true := by decide +kernel
  have hreach : Reachable lonelyWeb := ⟨_, ⟨_, _, _, by decide +kernel, rfl⟩, .refl _⟩
  exact ⟨herr, (refusal_changes_nothing hreach).2 _ _ _ herr⟩

end Pid1

end SchemaInit.Engine
