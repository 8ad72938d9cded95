/-
# `SchemaInit.Engine.Launch` — when a service is started, and when it is not

No service is started before those of its `dep=` lines are stable, or given up and not
critical (`spawned_after_deps`).  A service that is out stays out: without a `bind=` and
as nobody's fallback, only a command for it or a new table starts it again
(`out_stays_out`).
-/
import SchemaInit.Engine.Budget
import SchemaInit.Engine.Fuse

namespace SchemaInit.Engine

open Service List Pid1

variable {W : Nat → World → Prop} {G : Pid1 → Nat → Prop} {K : Nat → Kind → Prop} {e e' u : Pid1} {i j : Nat}
    {s s' : Service} {table : List Service} {groups : List State} {k : Kind}

/-! ## Dependencies first -/

/-- Each service named by a `dep=` line of `s` is stable, or given up and not critical. -/
def DepsMet (table : List Service) (s : Service) : Prop :=
  ∀ k < min s.depSlots maxDeps, ∀ d, s.depIdx.getD k none = some d → ∃ t, table[d]? = some t ∧
    (t.rt.inst.state.stable = true ∨ t.rt.inst.state.gone = true ∧ t.flags.critical = false)

theorem depsMet_of_ready (h : serviceDepsReady table groups s = true) : DepsMet table s := by
  intro k hk d hd
  have hdep := all_eq_true.mp h k (mem_range.mpr hk)
  simp only [hd, depReady] at hdep
  cases ht : table[d]? with
  | none => simp [ht] at hdep
  | some t =>
    refine ⟨t, rfl, ?_⟩
    by_cases hgone : t.rt.inst.state.gone = true <;> simp_all

/-- The call is made in `FULL_TRUST`; a service in `NEW_PROCESS` is not ready for itself. -/
theorem DepsMet.call (h : DepsMet u.services (u.at_ j)) (hj : j < u.count) (hst : (u.at_ j).rt.inst.state = .newProcess)
    (hs : s'.core = core { u.at_ j with rt.inst.state := .fullTrust }) :
    DepsMet (u.put j s').services ((u.put j s').at_ j) := by
  rw [at_put hj]
  have hconf : s'.conf = (u.at_ j).conf := (congrArg conf hs :)
  have hidx : s'.depIdx = (u.at_ j).depIdx := (congrArg depIdx hs :)
  intro k hk d hd
  rw [depSlots, hconf] at hk
  obtain ⟨t, ht, hup⟩ := h k hk d (hidx ▸ hd)
  refine ⟨t, ?_, hup⟩
  by_cases hjd : j = d
  · subst hjd
    simp [← at_eq ht, hst, State.stable, State.gone] at hup
  · rwa [put, getElem?_set_ne hjd]

def Pid1.SpawnsMet (e : Pid1) : Prop :=
  ∀ x ∈ e.spawns, DepsMet x.2 (x.2.getD x.1 default)

namespace Pid1

theorem SpawnsMet.moves (h : e.SpawnsMet) (hG : ∀ u j, K j .spawn → G u j → DepsMet u.services (u.at_ j))
    (hm : Moves W G K e e') : e'.SpawnsMet := by
  refine hm.rule (fun u v _ hv hu => by rwa [SpawnsMet, hv]) (fun u j k s s' _ _ _ _ hu => hu) ?_
    (fun u j b _ _ _ hu => hu) h
  intro u j s' s'' t _ hj hk hst hs hg _ _ hu x hx
  have hcall : ((u.spawnCall j s').put j s'').spawns = u.spawns ++ [(j, (u.put j s').services)] := spawns_emit _ _
  rw [hcall, mem_append] at hx
  rcases hx with hx | hx
  · exact hu x hx
  · obtain rfl := mem_singleton.mp hx
    exact (hG u j hk hg).call hj hst hs

theorem SpawnsMet.step (h : e.SpawnsMet) (x : Input) : (e.step x).SpawnsMet := by
  cases step_cases e x with
  | moves hm =>
    cases x with
    | pass p => exact h.moves (fun _ _ _ hg => hg) (pass_moves (fun _ _ _ => depsMet_of_ready) p e)
    | ctl w ws c => exact h.moves (fun _ _ hk _ => absurd (Cmd.kinds_cases hk) (by simp [Kind.byOperator])) hm
    | _ => exact h.moves (fun _ _ hk _ => by simp [Input.kinds, exitKinds, hearKinds] at hk) hm
  | refused heq => rwa [heq]
  | reload r _ _ heq => rwa [heq, SpawnsMet, spawns_adoptConfig]
  | add w ws path file _ heq => rwa [heq, SpawnsMet, spawns_ctlAdd]

theorem spawned_after_deps (h : Reachable e) (hspawn : Effect.spawn i table ∈ e.trace) :
    DepsMet table (table.getD i default) := by
  obtain ⟨s, ⟨ws, root, c, _, rfl⟩, hrun⟩ := h
  have hboot : (boot ws root c).SpawnsMet := by simp [SpawnsMet, spawns, boot]
  exact hrun.invariant SpawnsMet hboot (fun u x hu _ => hu.step x) _ (mem_spawns.mpr hspawn)

def afterDb : Pid1 :=
  let up (sec : Int) : Input := .pass { tick := fun i => { now := ⟨sec, 0⟩, memKb := 100000, fork := some (i + 7) } }
  [up 1, up 11, up 12].foldl step (boot (fun _ => {}) (cstr "/cg") (fusedWeb ["db"]))

theorem spawned_after_deps_db :
    ∃ table, Effect.spawn 0 table ∈ afterDb.trace ∧ DepsMet table (table.getD 0 default) := by
  have hrun : Reachable afterDb := by
    refine ⟨_, ⟨_, _, _, ?_, rfl⟩, Run.AllOk.reaches (by simp [Run.AllOk])⟩
    decide +kernel
  have hspawn : Effect.spawn 0 (afterDb.spawns.getD 2 default).2 ∈ afterDb.trace := by decide +kernel
  exact ⟨_, hspawn, spawned_after_deps hrun hspawn⟩

end Pid1

/-! ## Out for good -/

def Service.outline (s : Service) : State × Nat × Bool × Bytes × Bool × Bool :=
  (s.rt.inst.state, s.rt.childPid, s.rt.main.wait, s.conf.bindName, s.rt.bind.held, s.rt.card.standbyUp)

def Service.Out (s : Service) : Prop :=
  s.outline = (.excised, 0, false, [], false, false)

theorem Service.Out.arc (h : s.Out) (hname : serviceIsStandby e.services i = false) (hk : k.byOperator = false)
    (ha : Arc W e i k s s') : s'.Out := by
  obtain ⟨hst, hchild, hwait, hbind, hheld, hup⟩ := by simpa only [Out, outline, Prod.mk.injEq] using h
  cases k with
  | help =>
    cases ha with
    | quiet hq => exact (congrArg outline hq :).trans h
    | tree => exact h
  | exit | done | lost => exact absurd hchild (ha.running (by simp))
  | tick =>
    cases ha with
    | refresh => exact h
    | fuse => simp [Out, outline, hwait, hbind, hheld, hup]
    | _ => simp [hst] at *
  | other => exact absurd rfl (ha.unasked hname hup)
  | stop => exact absurd rfl (ha.unbound hbind hheld).1
  | bind => exact absurd rfl (ha.unbound hbind hheld).2
  | monitor => cases ha <;> simp [hwait] at *
  | hear =>
    cases ha with
    | adopt p hp _ hwhy => simp [hwait, hchild, eq_comm] at hwhy
    | remember => exact h
  | wake | pause => cases ha; simp [hst] at *
  | ctl | halt => cases hk
  | freeze | op | spawn => cases ha

/-- The table stays, and no command is meant for service `i`. -/
def Input.spares (i : Nat) (e : Pid1) (x : Input) : Prop :=
  x.keepsTable = true ∧ ∀ w ws c, x = .ctl w ws c → c ≠ .resetAll ∧ c.target.bind e.find ≠ some i

theorem Input.spares.kinds {x : Input} (h : x.spares i e) (hk : x.kinds e i k) : k.byOperator = false := by
  cases k with
  | ctl | halt =>
    cases x with
    | ctl w ws c =>
      have hc := h.2 w ws c rfl
      cases c <;> simp_all [Input.kinds, Cmd.kinds, Cmd.target]
    | _ => simp [Input.kinds, exitKinds, hearKinds, Kind.inPass] at hk
  | _ => rfl

namespace Pid1

theorem out_stays_out {e₀ : Pid1} (h : (e₀.at_ i).Out) (hname : serviceIsStandby e₀.services i = false)
    (hrun : Run.Reaches step (Input.spares i) e₀ e) : (e.at_ i).Out ∧ e.spawnsOf i = e₀.spawnsOf i := by
  refine (hrun.invariant (fun e => ((e.at_ i).Out ∧ e.spawnsOf i = e₀.spawnsOf i) ∧
    serviceIsStandby e.services i = false) ⟨⟨h, rfl⟩, hname⟩ ?_).1
  rintro u x ⟨hu, hsame⟩ hx
  have hm := step_moves u x hx.1
  refine ⟨hm.ruleAt (P := fun s n => s.Out ∧ n = e₀.spawnsOf i) ?_ ?_ ?_ hu, (hm.standby i).trans hsame⟩
  · rintro v k s s' n hv hk ha ⟨hs, hn⟩
    exact ⟨hs.arc ((hv.standby i).trans hsame) (hx.kinds hk) ha, hn⟩
  · rintro _ v s t s' n _ hst _ _ ⟨hs, _⟩
    simp [Out, outline, hst] at hs
  · exact fun _ s n b hs => hs

theorem stopped_stays_out : let e := ((stoppedDb ["db"]).step (passAt 9 8)).step (passAt 20 9)
    e.spawns ≠ [] ∧ (e.at_ 1).Out ∧ e.spawnsOf 1 = (stoppedDb ["db"]).spawnsOf 1 := by
  have hout : ((stoppedDb ["db"]).at_ 1).outline = (.excised, 0, false, [], false, false) := by decide +kernel
  have hpass : ∀ u sec pid, Input.spares 1 u (passAt sec pid) := fun _ _ _ => ⟨rfl, by simp [passAt]⟩
  exact ⟨by decide +kernel, out_stays_out hout (by decide +kernel) (.tail (.tail (.refl _) (hpass ..)) (hpass ..))⟩

end Pid1

end SchemaInit.Engine
