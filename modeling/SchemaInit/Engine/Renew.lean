/-
# `SchemaInit.Engine.Renew` — what a load puts in the table

`engine_load`, `schema-ctl add` and `handle_reload` are the three ways a service gets
into the table.  A loaded service is *fresh*: its runtime half is that of
`svc_init_defaults`.  A reload then lets it take over the runtime half of the live
service of its name, and all three arm a timer that was never armed.

The first service of a name takes over the first live one of that name; with two new
services of one name the second takes over what the first left (`Service.takenOver`).
-/
import SchemaInit.Engine.Follow

namespace SchemaInit.Engine

open Service Option List

variable {f : SvcFile} {s s' : Service} {c : Config} {k : Nat} {w : World} {live : List Service} {ws : Nat → World}
    {e : Pid1}

/-! ## Timers -/

theorem Service.core_timerArm (w : World) (s : Service) :
    (s.timerArm w).core = core { s with rt.inst.state := .perfect } := by
  rw [timerArm]
  split
  · split <;> rfl
  · rfl

/-! ## Fresh services -/

structure Service.Fresh (s : Service) : Prop where
  rt : s.rt = (Service.fresh s.conf s.flags).rt
  policy : s.flags.noRestart = s.conf.noRestartCfg
  bind : s.conf.bindName ≠ [] → s.flags.timer = false

/-- What holds of the service as parsed and is kept by the three adjustments of `svc_finalize`
holds of every service that is loaded. -/
theorem svcFinalize_rule {P : Service → Prop} (parsed : (f.conf.bindName ≠ [] → f.flags.timer = false) → ∀ deps,
      P (fresh { f.conf with noRestartCfg := f.flags.noRestart, depName := deps } f.flags))
    (persist : ∀ s, P s → P { s with flags.timerPersist := false })
    (timeout : ∀ s n, P s → P { s with conf.startTimeoutSec := n })
    (name : ∀ s, P s → P { s with conf.name := f.baseName.take 63 }) (h : svcFinalize f = some s) : P s := by
  unfold svcFinalize at h
  split at h
  · cases h
  · split at h
    · cases h
    case isFalse hbind =>
      have hbind : f.conf.bindName ≠ [] → f.flags.timer = false := by simpa using hbind
      split at h
      · cases h
      · -- the four versions of the service, in the order of the source
        extract_lets _ s1 _ s2 _ s3 at_ _ s4 at h
        have h1 : P s1 := parsed hbind _
        have h2 : P s2 := by
          unfold s2
          split
          · exact persist s1 h1
          · exact h1
        have h3 : P s3 := by
          unfold s3
          split
          · exact timeout s2 _ h2
          · exact h2
        have h4 : P s4 := by
          unfold s4
          split
          · exact name s3 h3
          · exact h3
        split at h
        · cases h
        · split at h
          · cases h
          · split at h
            · cases h
            · split at h
              · cases h
              · exact some.inj h ▸ h4

theorem svcFinalize_fresh (h : svcFinalize f = some s) : s.Fresh := by
  refine svcFinalize_rule (fun hbind deps => ⟨rfl, rfl, hbind⟩) ?_ ?_ ?_ h
  · intro s hs
    exact { hs with }
  · intro s n hs
    exact { hs with }
  · intro s hs
    exact { hs with }

theorem servicesLoad_fresh {files : List SvcFile} (h : s ∈ servicesLoad files) : s.Fresh := by
  obtain ⟨f, _, hf⟩ := mem_filterMap.mp (mem_of_mem_take h)
  exact svcFinalize_fresh hf

theorem Config.fresh (h : s ∈ c.services) : s.Fresh := by
  unfold Config.services at h
  dsimp only at h
  split at h
  · cases hfb : c.fallback with
    | none =>
      rw [hfb] at h
      exact servicesLoad_fresh h
    | some d =>
      rw [hfb] at h
      exact servicesLoad_fresh h
  · exact servicesLoad_fresh h

/-! ## Resolution -/

def Service.Reindexed (s s' : Service) : Prop :=
  ∃ d g, s' = { s with depIdx := d, grpDepIdx := g }

theorem resolve_getElem {table : List Service} {groups : List Group}
    (h : (validateAndResolve table groups).1[k]? = some s') : ∃ s, table[k]? = some s ∧ s.Reindexed s' := by
  simp only [validateAndResolve, getElem?_map, map_eq_some_iff] at h
  obtain ⟨s, hs, rfl⟩ := h
  exact ⟨s, hs, _, _, rfl⟩

theorem Service.Fresh.reindexed (h : s.Fresh) (hr : s.Reindexed s') : s'.Fresh := by
  obtain ⟨d, g, rfl⟩ := hr
  exact { h with }

theorem Config.shadow_fresh (h : (validateAndResolve c.services c.groups).1[k]? = some s) : s.Fresh := by
  obtain ⟨s0, hs0, hr⟩ := resolve_getElem h
  exact (c.fresh (mem_of_getElem? hs0)).reindexed hr

/-! ## The merge -/

theorem Service.clampHold_eq (s : Service) (now : Timespec) : ∃ r, s.clampHold now = { s with rt.restartAt := r } := by
  unfold clampHold
  split
  · exact ⟨s.rt.restartAt, rfl⟩
  · split
    · exact ⟨_, rfl⟩
    · exact ⟨s.rt.restartAt, rfl⟩

/-- The timer flag after `svc_carry_timer_done`: a run-once timer that is done stays done. -/
def Service.carriedTimer (s live : Service) : Bool :=
  s.flags.timer && !(!live.flags.timer && !s.flags.timerCalendar && s.conf.timerIntervalSec ≤ 0)

/-- What a new service takes over: the runtime half with the retry hold clamped, and the
hold of `schema-ctl stop`. -/
theorem Service.takeOver_eq (w : World) (s t : Service) : ∃ r, s.takeOver w t = { s with
    rt := { t.rt with restartAt := r }
    flags.noRestart := t.flags.noRestart
    flags.timer := s.carriedTimer t } := by
  obtain ⟨r, hr⟩ := (s.runtimeCopy t).clampHold_eq w.now
  refine ⟨r, ?_⟩
  rw [takeOver, hr]
  unfold carryTimerDone carriedTimer
  cases hlive : t.flags.timer <;> cases hnew : s.flags.timer <;> cases hcal : s.flags.timerCalendar <;>
    by_cases hsec : s.conf.timerIntervalSec ≤ 0 <;> simp [runtimeCopy, hnew, hcal, hsec]

theorem Service.takeOver_rt (w : World) (s t : Service) : ∃ r, (s.takeOver w t).rt = { t.rt with restartAt := r } := by
  obtain ⟨r, hr⟩ := s.takeOver_eq w t
  exact ⟨r, by rw [hr]⟩

theorem Service.takeOver_conf (w : World) (s t : Service) : (s.takeOver w t).conf = s.conf := by
  obtain ⟨r, hr⟩ := s.takeOver_eq w t
  rw [hr]

theorem Service.takeOver_timer (w : World) (s t : Service) : (s.takeOver w t).flags.timer = s.carriedTimer t := by
  obtain ⟨r, hr⟩ := s.takeOver_eq w t
  rw [hr]

inductive Renewed (w : World) (live : List Service) (s : Service) : Service → Prop
  | new (hnew : ∀ t ∈ live, t.conf.name ≠ s.conf.name) : Renewed w live s s
  | kept {t : Service} (ht : t ∈ live) (hname : t.conf.name = s.conf.name) : Renewed w live s (s.takeOver w t)
  | again {t : Service} (ht : t ∈ live) (hname : t.conf.name = s.conf.name) : Renewed w live s
      (s.takeOver w t.takenOver)

theorem Renewed.of_set {t : Service} {j : Nat} (hj : live[j]? = some t)
    (h : Renewed w (live.set j t.takenOver) s s') : Renewed w live s s' := by
  have hmem : ∀ u ∈ live.set j t.takenOver, u ∈ live ∨ u = t.takenOver := fun u hu => mem_or_eq_of_mem_set hu
  have ht : t ∈ live := mem_of_getElem? hj
  cases h with
  | new hnew =>
    refine .new fun u hu hname => ?_
    obtain ⟨k, hk⟩ := mem_iff_getElem?.mp hu
    by_cases hjk : j = k
    · subst hjk
      have hlen : j < live.length := (List.getElem?_eq_some_iff.mp hj).1
      obtain rfl : u = t := some.inj (hk.symm.trans hj)
      exact hnew u.takenOver (mem_of_getElem? (i := j) (by simp [hlen])) hname
    · exact hnew u (mem_of_getElem? (by rwa [getElem?_set_ne hjk])) hname
  | kept hu hname =>
    rcases hmem _ hu with hu | rfl
    · exact .kept hu hname
    · exact .again ht hname
  | again hu hname =>
    rcases hmem _ hu with hu | rfl
    · exact .again hu hname
    · exact (Renewed.again ht hname :)

theorem merge_renewed {shadow : List Service}
    (h : (merge w shadow live).1[k]? = some s') : ∃ s, shadow[k]? = some s ∧ Renewed w live s s' := by
  induction shadow generalizing live k with
  | nil => simp [merge] at h
  | cons s shadow ih =>
    unfold merge at h
    cases hfind : live.findIdx? fun t => t.conf.name = s.conf.name with
    | none =>
      rw [hfind] at h
      cases k with
      | zero =>
        simp only [getElem?_cons_zero, some.injEq] at h
        subst h
        exact ⟨s, rfl, .new (by simpa using findIdx?_eq_none_iff.mp hfind)⟩
      | succ k => exact ih h
    | some j =>
      obtain ⟨hj, hname, _⟩ := findIdx?_eq_some_iff_getElem.mp hfind
      have hget : live[j]? = some (live.getD j default) := by simp [hj]
      rw [hfind] at h
      cases k with
      | zero =>
        simp only [getElem?_cons_zero, some.injEq] at h
        subst h
        refine ⟨s, rfl, .kept (mem_of_getElem? hget) ?_⟩
        simpa [hj] using hname
      | succ k =>
        obtain ⟨s0, hs0, hr⟩ := ih h
        exact ⟨s0, hs0, hr.of_set hget⟩

/-! ## The arm block -/

def Service.armIfNew (w : World) (s : Service) : Service :=
  if s.flags.timer && s.rt.timerNext.sec = 0 then s.timerArm w else s

namespace Pid1

@[simp] theorem keeps_evictionReadded (w : World) (e : Pid1) : Keeps e (e.evictionReadded w) := by
  refine keeps_sweepEvictions (fun u ev => ?_) e
  simp only [evictionBack]
  split_ifs <;> simp

theorem spawns_evictOrphan (w : World) (j : Nat) (s : Service) (e : Pid1) :
    (e.evictOrphan w j s).spawns = e.spawns := by
  unfold evictOrphan
  split_ifs
  all_goals cases w.stopFork j <;> simp [evictionAdd]

theorem spawns_orphan (w : World) (evict : Bool) (j : Nat) (s : Service) (e : Pid1) :
    (e.orphan w evict j s).spawns = e.spawns := by
  have hclose : ∀ (l : List Int) (u : Pid1), (l.foldl (fun u fd => u.emit (.close fd)) u).spawns = u.spawns := by
    intro l
    induction l with
    | nil => exact fun _ => rfl
    | cons fd l ih => exact fun u => (ih _).trans (by simp)
  unfold orphan
  rw [hclose]
  split_ifs <;> simp [spawns_evictOrphan]

theorem spawns_orphans (w : World) (evict : Bool) (l : List Service) (j : Nat) (e : Pid1) :
    (orphans w evict j l e).spawns = e.spawns := by
  induction l generalizing j e with
  | nil => rfl
  | cons s l ih => rw [orphans, ih, spawns_orphan]

theorem services_adoptConfig (w : World) (ws : Nat → World) (evict : Bool) (c : Config) (e : Pid1) :
    (e.adoptConfig w ws evict c).services =
      (merge w (validateAndResolve c.services c.groups).1 e.services).1.mapIdx fun k s => s.armIfNew (ws k) := by
  unfold adoptConfig
  dsimp only [armNewTimers]
  rw [services_of_fixed (keeps_evictionReadded w _).1]
  rfl

theorem spawns_adoptConfig (w : World) (ws : Nat → World) (evict : Bool) (c : Config) (e : Pid1) :
    (e.adoptConfig w ws evict c).spawns = e.spawns := by
  unfold adoptConfig
  exact (keeps_evictionReadded w _).2.trans (spawns_orphans w evict _ 0 e)

theorem adoptConfig_getElem {evict : Bool} (h : (e.adoptConfig w ws evict c).services[k]? = some s') :
    ∃ s r, s.Fresh ∧ (validateAndResolve c.services c.groups).1[k]? = some s ∧ Renewed w e.services s r ∧
      s' = r.armIfNew (ws k) := by
  rw [services_adoptConfig, getElem?_mapIdx, map_eq_some_iff] at h
  obtain ⟨r, hr, rfl⟩ := h
  obtain ⟨s, hs, hren⟩ := merge_renewed hr
  exact ⟨s, r, c.shadow_fresh hs, hs, hren, rfl⟩

/-! ## The three loads -/

theorem ctlAdd_getElem {path : Bytes} {file : Option SvcFile} (h : (e.ctlAdd w path file).1.services[k]? = some s') :
    (∃ s, e.services[k]? = some s ∧ s.Reindexed s') ∨
      (k = e.count ∧ ∃ s : Service, s.Fresh ∧ (∀ t ∈ e.services, t.conf.name ≠ s.conf.name) ∧
        (∃ s0, file.bind svcFinalize = some s0 ∧ s.conf = s0.conf) ∧ s' = if s.flags.timer
          then s.timerArm w else s) := by
  have hself : ∀ s : Service, s.Reindexed s := fun s => ⟨s.depIdx, s.grpDepIdx, rfl⟩
  unfold ctlAdd at h
  split at h
  · exact .inl ⟨s', h, hself s'⟩
  · split at h
    · exact .inl ⟨s', h, hself s'⟩
    next s hs =>
      obtain ⟨f, _, hf⟩ := bind_eq_some_iff.mp hs
      have hfresh := svcFinalize_fresh hf
      split at h
      · exact .inl ⟨s', h, hself s'⟩
      case isFalse hnew =>
        have hnew : ∀ t ∈ e.services, t.conf.name ≠ s.conf.name := by simpa using hnew
        -- what the first resolution leaves in a slot
        have hslot : ∀ {k : Nat} {t : Service}, (validateAndResolve (e.services ++ [s]) e.groups).1[k]? = some t →
            (∃ u, e.services[k]? = some u ∧ u.Reindexed t) ∨ (k = e.count ∧ s.Reindexed t) := by
          intro k t ht
          obtain ⟨u, hu, hr⟩ := resolve_getElem ht
          rcases lt_trichotomy k e.services.length with hk | hk | hk
          · rw [getElem?_append_left hk] at hu
            exact .inl ⟨u, hu, hr⟩
          · subst hk
            simp only [getElem?_concat_length, some.injEq] at hu
            subst hu
            exact .inr ⟨rfl, hr⟩
          · rw [getElem?_eq_none (by simp; omega)] at hu
            cases hu
        dsimp only at h
        split at h
        · -- a cycle: resolved again without the new service
          obtain ⟨t, ht, hr⟩ := resolve_getElem h
          rw [getElem?_take] at ht
          split at ht
          case isTrue hk =>
            rcases hslot ht with ⟨u, hu, hu'⟩ | ⟨hk', _⟩
            · obtain ⟨d, g, rfl⟩ := hu'
              obtain ⟨d', g', rfl⟩ := hr
              exact .inl ⟨u, hu, d', g', rfl⟩
            · omega
          · cases ht
        · dsimp only [mod, put] at h
          by_cases hk : e.count = k
          · subst hk
            have hlen : e.count < (validateAndResolve (e.services ++ [s]) e.groups).1.length := by
              simp [validateAndResolve, count]
            rw [getElem?_set_self hlen, some.injEq] at h
            subst h
            have hat := getElem?_eq_getElem hlen
            rcases hslot hat with ⟨u, hu, _⟩ | ⟨_, hr⟩
            · simp [count] at hu
            · refine .inr ⟨rfl, _, hfresh.reindexed hr, ?_, ⟨s, hs, ?_⟩, ?_⟩
              · obtain ⟨d, g, hd⟩ := hr
                rw [hd]
                exact hnew
              · obtain ⟨d, g, hd⟩ := hr
                rw [hd]
              · simp [at_, hat]
          · rw [getElem?_set_ne hk] at h
            rcases hslot h with ⟨u, hu, hr⟩ | ⟨hk', _⟩
            · exact .inl ⟨u, hu, hr⟩
            · exact absurd hk'.symm hk

theorem spawns_ctlAdd (w : World) (path : Bytes) (file : Option SvcFile) (e : Pid1) :
    (e.ctlAdd w path file).1.spawns = e.spawns := by
  unfold ctlAdd
  split
  · rfl
  · split
    · rfl
    · split
      · rfl
      · dsimp only
        split <;> rfl

theorem boot_getElem {root : Bytes} (h : (boot ws root c).services[k]? = some s') :
    ∃ s : Service, s.Fresh ∧ s' = if s.flags.timer then s.timerArm (ws k) else s := by
  simp only [boot, getElem?_mapIdx, map_eq_some_iff] at h
  obtain ⟨s, hs, rfl⟩ := h
  exact ⟨s, c.shadow_fresh hs, rfl⟩

end Pid1

/-! ## Every event -/

structure Reload where
  w : World
  ws : Nat → World
  evict : Bool
  config : Config

def Input.reload? : Input → Option Reload
  | .hup w ws c => some ⟨w, ws, false, c⟩
  | .ctl w ws (.reload evict c) => some ⟨w, ws, evict, c⟩
  | _ => none

inductive StepCase (e : Pid1) (x : Input) : Prop
  | moves (h : Moves x.uses (fun _ _ => True) (x.kinds e) e (e.step x))
  | refused (h : e.step x = e)
  | reload (r : Reload) (hx : x.reload? = some r) (herr : reloadError e.services r.config = none)
      (h : e.step x = e.adoptConfig r.w r.ws r.evict r.config)
  | add (w : World) (ws : Nat → World) (path : Bytes) (file : Option SvcFile) (hx : x = .ctl w ws (.add path file))
      (h : e.step x = (e.ctlAdd w path file).1)

namespace Pid1

theorem step_loads (e : Pid1) {x : Input} (hx : x.keepsTable = false) : e.step x = e ∨
      (∃ r, x.reload? = some r ∧ reloadError e.services r.config = none ∧
        e.step x = e.adoptConfig r.w r.ws r.evict r.config) ∨
      ∃ w ws path file, x = .ctl w ws (.add path file) ∧ e.step x = (e.ctlAdd w path file).1 := by
  have hreload : ∀ r : Reload, x.reload? = some r → e.step x = (e.handleReload r.w r.ws r.evict r.config).1 →
      e.step x = e ∨ ∃ r, x.reload? = some r ∧ reloadError e.services r.config = none ∧
        e.step x = e.adoptConfig r.w r.ws r.evict r.config := by
    intro r hx h
    unfold handleReload at h
    cases herr : reloadError e.services r.config with
    | some err => exact .inl (by rw [h, herr])
    | none => exact .inr ⟨r, hx, herr, by rw [h, herr]⟩
  cases x with
  | hup w ws c => exact (hreload ⟨w, ws, false, c⟩ rfl rfl).imp_right .inl
  | ctl w ws c =>
    cases c with
    | add path file => exact .inr (.inr ⟨w, ws, path, file, rfl, rfl⟩)
    | reload evict c => exact (hreload ⟨w, ws, evict, c⟩ rfl rfl).imp_right .inl
    | _ => cases hx
  | _ => cases hx

theorem step_cases (e : Pid1) (x : Input) : StepCase e x := by
  cases hx : x.keepsTable with
  | true => exact .moves (step_moves e x hx)
  | false =>
    rcases step_loads e hx with h | ⟨r, hr, herr, h⟩ | ⟨w, ws, path, file, rfl, h⟩
    · exact .refused h
    · exact .reload r hr herr h
    · exact .add w ws path file rfl h

end Pid1

end SchemaInit.Engine
