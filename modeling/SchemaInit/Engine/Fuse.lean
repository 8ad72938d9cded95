/-
# `SchemaInit.Engine.Fuse` — which dependencies a loop over the slots sees

`validate_and_resolve` leaves -1 in the slot of a name that is a group or is unknown.  The
loops of the quarantine fuse and of `service_probe_f8` stop at the first such slot, and the
probe also at a critical dependency that is gone: a dependency behind that point counts for
nothing.  `deps_counted_iff` says when this makes a difference for some order of the `dep=`
lines: if one of the dependencies has something to say, and there is a hole in the list.

The three loops are the same search, `takeWhile` up to a stop and then `any`; what is said
of it in general stands first.
-/
import SchemaInit.Engine.Resolved

namespace SchemaInit.Engine

open Service List

variable {table : List Service} {names : List Bytes} {s : Service} {n : Bytes} {f : SvcFile} {e : Pid1}

/-! ## A search that stops early -/

section

variable {α : Type*} [DecidableEq α] {stop hit : α → Bool}

/-- A search that stops finds what there is to find in every order, exactly if there is nothing to find or
nothing to stop at. -/
theorem any_takeWhile_perm_iff (l : List α) :
    (∀ l' : List α, l'.Perm l → (l'.takeWhile fun a => !stop a).any hit = l'.any hit) ↔
      (l.any hit = true → l.any stop = false) := by
  constructor
  · intro h hhit
    by_contra hstop
    obtain ⟨a, ha, hstop⟩ := any_eq_true.mp (Bool.of_not_eq_false hstop)
    -- what stops the search is put first
    have hfirst := h (a :: l.erase a) (perm_cons_erase ha).symm
    rw [(perm_cons_erase ha).symm.any_eq, hhit, takeWhile_cons_of_neg (by simp [hstop])] at hfirst
    cases hfirst
  · intro h l' hl
    cases hhit : l.any hit with
    | true =>
      have hstop : ∀ a ∈ l', stop a = false := by
        intro a ha
        simpa using any_eq_false.mp (h hhit) a (hl.mem_iff.mp ha)
      rw [takeWhile_eq_self_iff.mpr fun a ha => by simp [hstop a ha]]
    | false =>
      rw [hl.any_eq, hhit]
      refine any_eq_false.mpr fun a ha => ?_
      exact any_eq_false.mp hhit a (hl.mem_iff.mp ((takeWhile_subset _) ha))

end

/-! ## Slots and names -/

def Service.usedDeps (s : Service) : List Bytes :=
  (s.conf.depName.takeWhile fun n => !n.isEmpty).take maxDeps

def depNamed (table : List Service) (n : Bytes) : Option Service :=
  table.find? fun t => t.conf.name = n

theorem indexOf_spec (table : List Service) (n : Bytes) : (indexOf table n = none ∧ depNamed table n = none) ∨
      ∃ d t, indexOf table n = some d ∧ table[d]? = some t ∧ depNamed table n = some t := by
  cases hidx : indexOf table n with
  | none =>
    refine .inl ⟨rfl, find?_eq_none.mpr fun t ht => ?_⟩
    exact Bool.not_eq_true _ ▸ findIdx?_eq_none_iff.mp hidx t ht
  | some d =>
    obtain ⟨hlt, hname, hfirst⟩ := findIdx?_eq_some_iff_getElem.mp hidx
    refine .inr ⟨d, table[d], rfl, getElem?_eq_getElem hlt, ?_⟩
    exact find?_eq_some_iff_getElem.mpr ⟨hname, d, hlt, rfl, fun j hj => by simpa using hfirst j hj⟩

/-- The service with other `dep=` lines, as `validate_and_resolve` leaves it. -/
def Service.withDeps (table : List Service) (groups : List Group) (names : List Bytes) (s : Service) : Service :=
  resolveService table groups
    { s with conf.depName := names, depIdx := List.replicate maxDeps none, grpDepIdx := List.replicate maxDeps none }

theorem depIdx_withDeps {groups : List Group} (hlen : names.length ≤ maxDeps) (hne : ∀ n ∈ names, n ≠ []) :
    (s.withDeps table groups names).depIdx =
      names.map (indexOf table) ++ List.replicate (maxDeps - names.length) none := by
  have hused : (names.takeWhile fun n => !n.isEmpty).take maxDeps = names := by
    rw [takeWhile_eq_self_iff.mpr fun n hn => by simpa using hne n hn, take_of_length_le hlen]
  simp [withDeps, resolveService, hused, fillSlots]

theorem usedDeps_length (s : Service) : s.usedDeps.length ≤ maxDeps := by
  simp [usedDeps]

theorem usedDeps_ne (h : n ∈ s.usedDeps) : n ≠ [] := by
  have := all_takeWhile (l := s.conf.depName) (p := fun n => !n.isEmpty)
  simpa using all_eq_true.mp this n (mem_of_mem_take h)

def Service.Trimmed (s : Service) : Prop :=
  s.depIdx.drop s.usedDeps.length = List.replicate (maxDeps - s.usedDeps.length) none

theorem Service.Trimmed.of_slots {s' : Service} (h : s.Trimmed) (hs : s'.slots = s.slots) : s'.Trimmed := by
  simp only [slots, Prod.mk.injEq] at hs
  simpa [Service.Trimmed, usedDeps, hs.1, hs.2.1] using h

theorem Service.Trimmed.resolve (h : s.Trimmed) (table : List Service) (groups : List Group) :
    (resolveService table groups s).Trimmed := by
  have hdrop : (fillSlots (s.usedDeps.map fun n => indexOf table n) s.depIdx).drop s.usedDeps.length =
      s.depIdx.drop s.usedDeps.length := by
    rw [fillSlots, drop_left' (length_map _), length_map]
  exact hdrop.trans h

theorem depIdx_svcFinalize (h : svcFinalize f = some s) : s.depIdx = List.replicate maxDeps none :=
  svcFinalize_rule (P := fun s => s.depIdx = List.replicate maxDeps none) (fun _ _ => rfl) (fun _ h => h)
    (fun _ _ h => h) (fun _ h => h) h

theorem trimmed_svcFinalize (h : svcFinalize f = some s) : s.Trimmed := by
  rw [Service.Trimmed, depIdx_svcFinalize h, drop_replicate]

namespace Pid1

theorem trimmed_validate (h : ∀ s ∈ table, s.Trimmed) (groups : List Group) :
    ∀ s ∈ (validateAndResolve table groups).1, s.Trimmed := by
  intro s' hs'
  obtain ⟨s, hs, rfl⟩ := mem_map.mp hs'
  exact (h s hs).resolve table groups

theorem trimmed_of_same {table' : List Service} (h : ∀ s ∈ table, s.Trimmed)
    (hs : table'.map slots = table.map slots) : ∀ s ∈ table', s.Trimmed := by
  intro s' hs'
  obtain ⟨s, hmem, hslots⟩ := mem_map.mp (hs ▸ mem_map_of_mem hs')
  exact (h s hmem).of_slots hslots.symm

theorem trimmed_load (c : Config) : ∀ s ∈ (validateAndResolve c.services c.groups).1, s.Trimmed := by
  refine trimmed_validate (fun s hs => ?_) _
  rw [c.services_eq] at hs
  obtain ⟨f, -, hf⟩ := mem_filterMap.mp (mem_of_mem_take hs)
  exact trimmed_svcFinalize hf

theorem trimmed_ctlAdd (h : ∀ s ∈ e.services, s.Trimmed) (w : World) (path : Bytes) (file : Option SvcFile) :
    ∀ s ∈ (e.ctlAdd w path file).1.services, s.Trimmed := by
  unfold ctlAdd
  split
  · exact h
  · split
    · exact h
    next s hs =>
      split
      · exact h
      · have hnew : ∀ t ∈ (validateAndResolve (e.services ++ [s]) e.groups).1, t.Trimmed := by
          refine trimmed_validate (fun t ht => ?_) _
          rcases mem_append.mp ht with ht | ht
          · exact h t ht
          · obtain ⟨f, -, hf⟩ := Option.bind_eq_some_iff.mp hs
            exact mem_singleton.mp ht ▸ trimmed_svcFinalize hf
        dsimp only
        split
        · exact trimmed_validate (fun t ht => hnew t (mem_of_mem_take ht)) _
        · refine trimmed_of_same hnew
            (slots_mod _ _ (f := fun s => if s.flags.timer then s.timerArm w else s) fun s => ?_)
          split
          · exact s.slots_timerArm w
          · rfl

theorem trimmed_of_reachable (h : Reachable e) : ∀ s ∈ e.services, s.Trimmed := by
  obtain ⟨s, ⟨ws, root, c, -, rfl⟩, hrun⟩ := h
  refine hrun.invariant (fun e => ∀ s ∈ e.services, s.Trimmed) ?_ fun u x hu _ => ?_
  · refine trimmed_of_same (trimmed_load c) (slots_mapIdx (fun i s => ?_) _)
    split
    · exact s.slots_timerArm (ws i)
    · rfl
  · cases step_cases u x with
    | moves hm => exact trimmed_of_same hu (slots_moves hm)
    | refused heq =>
      rw [heq]
      exact hu
    | reload r _ _ heq =>
      rw [heq, services_adoptConfig]
      exact trimmed_of_same (trimmed_load _) ((slots_mapIdx (fun i s => s.slots_armIfNew _) _).trans (slots_merge ..))
    | add w ws path file _ heq =>
      rw [heq]
      exact trimmed_ctlAdd hu w path file

theorem depIdx_of_reachable (h : Reachable e) {i : Nat} (hi : i < e.count) :
    ((e.at_ i).withDeps e.services e.groups (e.at_ i).usedDeps).depIdx = (e.at_ i).depIdx := by
  have hmem : e.at_ i ∈ e.services := mem_of_getElem? (getElem?_at hi)
  have hres : fillSlots ((e.at_ i).usedDeps.map (indexOf e.services)) (e.at_ i).depIdx = (e.at_ i).depIdx :=
    congrArg depIdx ((resolved_of_reachable h).services _ hmem)
  rw [fillSlots, length_map] at hres
  rw [depIdx_withDeps (usedDeps_length _) fun n => usedDeps_ne, ← trimmed_of_reachable h _ hmem]
  exact hres

end Pid1

/-! ## The loops over the names -/

section

variable (table : List Service)

def hole (n : Bytes) : Bool :=
  (depNamed table n).isNone

def tripping (n : Bytes) : Bool :=
  (depNamed table n).any fun t => t.rt.inst.state = .friction || t.rt.inst.state = .excised

def lost (n : Bytes) : Bool :=
  (depNamed table n).any fun t => t.rt.inst.state.gone && t.flags.critical

def unsettled (n : Bytes) : Bool :=
  (depNamed table n).any fun t => !t.rt.inst.state.gone && !t.rt.inst.state.stable

theorem any_slots (names : List Bytes) (m : Nat) :
    (((names.map (indexOf table) ++ List.replicate m none).takeWhile Option.isSome).any fun d : Option Nat =>
        let st := (table.getD (d.getD 0) default).rt.inst.state
        decide (st = State.friction) || decide (st = State.excised)) =
          (names.takeWhile fun n => !hole table n).any (tripping table) := by
  induction names with
  | nil =>
    cases m with
    | zero => rfl
    | succ m => rfl
  | cons n names ih =>
    rcases indexOf_spec table n with ⟨hidx, hnone⟩ | ⟨d, t, hidx, hd, hsome⟩
    · simp [hidx, hole, hnone]
    · rw [map_cons, cons_append, hidx, takeWhile_cons_of_pos rfl, any_cons, ih,
        takeWhile_cons_of_pos (by simp [hole, hsome]), any_cons]
      simp [tripping, hsome, hd]

/-- The probe looks at the names before the first hole, and for `dep_stable` at those before the
first critical one that is gone. -/
theorem probeDeps_slots (names : List Bytes) (m : Nat) (stable : Bool) :
    probeDeps table (names.map (indexOf table) ++ List.replicate m none) stable =
      (!(names.takeWhile fun n => !hole table n).any (lost table),
        stable && !(names.takeWhile fun n => !(hole table n || lost table n)).any (unsettled table)) := by
  induction names generalizing stable with
  | nil =>
    cases m with
    | zero => simp [probeDeps]
    | succ m => simp [probeDeps, replicate_succ]
  | cons n names ih =>
    rcases indexOf_spec table n with ⟨hidx, hnone⟩ | ⟨d, t, hidx, hd, hsome⟩
    · simp [hidx, hole, hnone, probeDeps]
    · simp only [map_cons, cons_append, hidx, probeDeps, hd]
      cases hgone : t.rt.inst.state.gone with
      | true =>
        cases hcrit : t.flags.critical with
        | true => simp [hole, lost, hsome, hgone, hcrit]
        | false => simp [ih, hole, lost, unsettled, hsome, hgone, hcrit]
      | false =>
        simp only [Bool.false_eq_true, if_false, ih]
        simp [hole, lost, unsettled, hsome, hgone, Bool.and_assoc]

end

/-! ## Every dependency counts -/

/-- The fuse and the probe of `s` take every service among `names` into account. -/
structure DepsCounted (table : List Service) (s : Service) (names : List Bytes) : Prop where
  fuse : fuseTrips table s = true ↔
    ∃ n ∈ names, ∃ t, depNamed table n = some t ∧ (t.rt.inst.state = .friction ∨ t.rt.inst.state = .excised)
  present : (probeDeps table s.depIdx true).1 = true ↔
    ∀ n ∈ names, ∀ t, depNamed table n = some t → t.rt.inst.state.gone = true → t.flags.critical = false
  stable : (probeDeps table s.depIdx true).2 = true ↔
    ∀ n ∈ names, ∀ t, depNamed table n = some t → t.rt.inst.state.gone = false → t.rt.inst.state.stable = true

/-- No name is a hole if a dependency has something to say, and no critical dependency is gone while
another one is not stable. -/
structure NothingHidden (table : List Service) (names : List Bytes) : Prop where
  holes : ∀ n ∈ names, (tripping table n || lost table n || unsettled table n) = true →
    ∀ m ∈ names, hole table m = false
  gone : ∀ n ∈ names, unsettled table n = true → ∀ m ∈ names, lost table m = false

theorem depsCounted_iff (table : List Service) (groups : List Group)
    (hlen : names.length ≤ maxDeps) (hne : ∀ n ∈ names, n ≠ []) (hfuse : s.conf.fuse = true)
    (hstate : s.rt.inst.state ≠ .excised) :
    DepsCounted table (s.withDeps table groups names) names ↔
      (names.takeWhile fun n => !hole table n).any (tripping table) = names.any (tripping table) ∧
        (names.takeWhile fun n => !hole table n).any (lost table) = names.any (lost table) ∧
          (names.takeWhile fun n => !(hole table n || lost table n)).any (unsettled table) =
            names.any (unsettled table) := by
  have hslots : (s.withDeps table groups names).depIdx =
      names.map (indexOf table) ++ List.replicate (maxDeps - names.length) none := depIdx_withDeps hlen hne
  have htrips : fuseTrips table (s.withDeps table groups names) =
      (names.takeWhile fun n => !hole table n).any (tripping table) := by
    rw [← any_slots table names (maxDeps - names.length), fuseTrips, hslots,
      take_of_length_le (by simp only [length_append, length_map, length_replicate]; omega)]
    have hs : (s.withDeps table groups names).conf.fuse = true ∧
      (s.withDeps table groups names).rt.inst.state ≠ .excised :=
      ⟨hfuse, hstate⟩
    simp [hs.1, hs.2]
  have hprobe := probeDeps_slots table names (maxDeps - names.length) true
  rw [← hslots] at hprobe
  have htripping : names.any (tripping table) = true ↔
      ∃ n ∈ names, ∃ t, depNamed table n = some t ∧ (t.rt.inst.state = .friction ∨ t.rt.inst.state = .excised) := by
    simp [tripping, Option.any_eq_true]
  have hlost : (!names.any (lost table)) = true ↔
      ∀ n ∈ names, ∀ t, depNamed table n = some t → t.rt.inst.state.gone = true → t.flags.critical = false := by
    simp [lost, Option.any_eq_false]
  have hunsettled : (!names.any (unsettled table)) = true ↔
      ∀ n ∈ names, ∀ t, depNamed table n = some t → t.rt.inst.state.gone = false → t.rt.inst.state.stable = true := by
    simp [unsettled, Option.any_eq_false]
  constructor
  · rintro ⟨hf, hp, hs⟩
    rw [htrips, ← htripping] at hf
    rw [hprobe, ← hlost] at hp
    rw [hprobe, ← hunsettled, Bool.true_and] at hs
    exact ⟨Bool.eq_iff_iff.mpr hf, Bool.not_inj (Bool.eq_iff_iff.mpr hp), Bool.not_inj (Bool.eq_iff_iff.mpr hs)⟩
  · rintro ⟨hf, hp, hs⟩
    constructor
    · rw [htrips, hf, htripping]
    · rw [hprobe, hp, hlost]
    · rw [hprobe, hs, Bool.true_and, hunsettled]

open Pid1 in
/-- The slots of a service are those of its `dep=` names.  On any table, the fuse and the probe of
one with a fuse count every service among them, in every order of the names, exactly if nothing
is hidden behind a stop of the loops. -/
theorem deps_counted_iff (table : List Service) (groups : List Group) {s : Service}
    (hfuse : s.conf.fuse = true) (hstate : s.rt.inst.state ≠ .excised) :
    (∀ e, Reachable e → ∀ i < e.count, e.at_ i = s →
      (s.withDeps e.services e.groups s.usedDeps).depIdx = s.depIdx) ∧
    ((∀ names, names.Perm s.usedDeps → DepsCounted table (s.withDeps table groups names) names) ↔
      NothingHidden table s.usedDeps) := by
  refine ⟨fun e h i hi hs => hs ▸ depIdx_of_reachable h hi, ?_⟩
  have hiff : ∀ names : List Bytes, names.Perm s.usedDeps → _ := fun names hperm =>
    depsCounted_iff table groups (hperm.length_eq ▸ usedDeps_length s)
      (fun n hn => usedDeps_ne (hperm.mem_iff.mp hn)) hfuse hstate
  have htrip := @any_takeWhile_perm_iff _ _ (hole table) (tripping table) s.usedDeps
  have hlost := @any_takeWhile_perm_iff _ _ (hole table) (lost table) s.usedDeps
  have hset := @any_takeWhile_perm_iff _ _ (fun n => hole table n || lost table n) (unsettled table) s.usedDeps
  constructor
  · intro hall
    have hcounted (l) (hl : l.Perm s.usedDeps) := (hiff l hl).mp (hall l hl)
    have htrip := htrip.mp fun l hl => (hcounted l hl).1
    have hlost := hlost.mp fun l hl => (hcounted l hl).2.1
    have hset := hset.mp fun l hl => (hcounted l hl).2.2
    simp only [any_eq_true, any_eq_false, Bool.or_eq_true, not_or, Bool.not_eq_true] at htrip hlost hset
    constructor
    · intro n hn htells m hm
      simp only [Bool.or_eq_true] at htells
      rcases htells with (htells | htells) | htells
      · exact htrip ⟨n, hn, htells⟩ m hm
      · exact hlost ⟨n, hn, htells⟩ m hm
      · exact (hset ⟨n, hn, htells⟩ m hm).1
    · intro n hn htells m hm
      exact (hset ⟨n, hn, htells⟩ m hm).2
  · intro hnone names hperm
    refine (hiff names hperm).mpr ⟨htrip.mpr ?_ names hperm, hlost.mpr ?_ names hperm, hset.mpr ?_ names hperm⟩
    · intro htells
      obtain ⟨n, hn, htells⟩ := any_eq_true.mp htells
      simpa using hnone.holes n hn (by simp [htells])
    · intro htells
      obtain ⟨n, hn, htells⟩ := any_eq_true.mp htells
      simpa using hnone.holes n hn (by simp [htells])
    · intro htells
      obtain ⟨n, hn, htells⟩ := any_eq_true.mp htells
      refine any_eq_false.mpr fun m hm => ?_
      simp [hnone.holes n hn (by simp [htells]) m hm, hnone.gone n hn htells m hm]

def fusedWeb (deps : List String) : Config where
  dir := { files := [
    { fname := cstr "web.svc"
      conf := { name := [], exec := cstr "/bin/web", fuse := true, depName := deps.map cstr } },
    dbFile, { dbFile with fname := cstr "log.svc" }] }

def stoppedDb (deps : List String) : Pid1 :=
  (Pid1.boot (fun _ => {}) (cstr "/cg") (fusedWeb deps)).step
    (.ctl {} (fun _ => {}) (.stop (cstr "db")))

theorem deps_counted_iff_db : let e := stoppedDb ["db", "log"]
    DepsCounted e.services ((e.at_ 0).withDeps e.services [] [cstr "log", cstr "db"])
      [cstr "log", cstr "db"] := by
  refine (deps_counted_iff _ [] (by decide +kernel) (by decide +kernel)).2.mpr
    ⟨?_, ?_⟩ [cstr "log", cstr "db"] (by decide +kernel)
  · decide +kernel
  · decide +kernel

/-- `db` is EXCISED; behind a name that is not there the fuse of `web` does not see it, before that name it does. -/
theorem fuse_blind_behind_hole :
    (∃ t, depNamed (stoppedDb ["nosuch", "db"]).services (cstr "db") = some t ∧ t.rt.inst.state = .excised) ∧
      fuseTrips (stoppedDb ["nosuch", "db"]).services ((stoppedDb ["nosuch", "db"]).at_ 0) = false ∧
        fuseTrips (stoppedDb ["db", "nosuch"]).services ((stoppedDb ["db", "nosuch"]).at_ 0) = true := by
  refine ⟨⟨(stoppedDb ["nosuch", "db"]).at_ 1, ?_⟩, ?_⟩
  · decide +kernel
  · decide +kernel

end SchemaInit.Engine
