/-
# `SchemaInit.Engine.OneChild` — one main process per service

`tick_service` never looks at `child_pid` before it calls `service_spawn`; it relies on
the state.  The invariant behind that: a service with a main process is in `FULL_TRUST`
or `FUNDAMENTAL`.  Two events can break it.

  * A reload that turns a running service into a timer arms it: the state becomes
    `PERFECT` with the process still there, and the timer's next run is a second one.
  * A `MAINPID=` for a service that still waits for one, but was given up meanwhile (its
    fuse, its bound), gives it a process in `EXCISED`, where a start is taken.

In every run without them, every spawn is of a service without a main process
(`spawn_without_child`).
-/
import SchemaInit.Engine.Renew

namespace SchemaInit.Engine

open Service List

variable {W : World → Prop} {e u : Pid1} {i : Nat} {x : Input} {w : World}

/-! ## The invariant -/

structure Service.OneChild (s : Service) : Prop where
  running : s.rt.childPid ≠ 0 →
    (s.rt.inst.state = .fullTrust ∨ s.rt.inst.state = .fundamental) ∧ s.rt.main.wait = false
  forking : s.rt.fork.state < 0 → s.rt.childPid = 0 ∧ s.rt.main.wait = false

namespace Service.OneChild

variable {s s' : Service}

section

variable (h : s.OneChild)
include h

theorem congr (hq : s'.core = s.core) : s'.OneChild := by
  have hchild : s'.rt.childPid = s.rt.childPid := (congrArg (·.rt.childPid) hq :)
  have hst : s'.rt.inst.state = s.rt.inst.state := (congrArg (·.rt.inst.state) hq :)
  have hwait : s'.rt.main.wait = s.rt.main.wait := (congrArg (·.rt.main.wait) hq :)
  have hfork : s'.rt.fork.state = s.rt.fork.state := (congrArg (·.rt.fork.state) hq :)
  constructor
  · rw [hchild, hst, hwait]
    exact h.running
  · rw [hfork, hchild, hwait]
    exact h.forking

theorem down (hft : s.rt.inst.state ≠ .fullTrust) (hfund : s.rt.inst.state ≠ .fundamental) : s.rt.childPid = 0 := by
  by_contra hchild
  rcases (h.running hchild).1 with hst | hst
  · exact hft hst
  · exact hfund hst

theorem waiting (hwait : s.rt.main.wait = true) : s.rt.childPid = 0 := by
  by_contra hchild
  simp [(h.running hchild).2] at hwait

theorem forked (hchild : s.rt.childPid ≠ 0) : ¬ s.rt.fork.state < 0 :=
  fun hfork => hchild (h.forking hfork).1

/-- Whatever else changes, a service without a main process is fine while the wait for a
`pid_file` is no new one. -/
theorem idle (hchild : s'.rt.childPid = 0) (hfork : s'.rt.fork.state = s.rt.fork.state)
    (hwait : s'.rt.main.wait = true → s.rt.main.wait = true) : s'.OneChild := by
  refine ⟨fun hne => absurd hchild hne, fun hneg => ⟨hchild, ?_⟩⟩
  rw [hfork] at hneg
  have hno := (h.forking hneg).2
  cases hw : s'.rt.main.wait with
  | false => rfl
  | true => simp [hwait hw] at hno

theorem exitArc (ha : ExitArc W s s') : s'.OneChild := by
  cases ha with
  | refresh => exact { h with }
  | mark now hbind hheld hctl => exact { h with }
  | hold hbind hheld hctl hchild => exact { h with }
  | bound hchild hheld => exact h.idle rfl rfl (by simp)
  | launcherAdopt hchild => exact ⟨fun _ => ⟨(h.running hchild).1, rfl⟩, fun hneg => absurd hneg (h.forked hchild)⟩
  | launcherAwait hchild => exact ⟨fun hne => absurd rfl hne, fun hneg => absurd hneg (h.forked hchild)⟩
  | forkAdopt p hp hchild hfile hst hctl =>
    exact ⟨fun _ => ⟨.inl hst, (h.running hchild).2⟩, fun hneg => by simp at hneg⟩
  | forkWait hchild => exact ⟨fun hne => absurd rfl hne, fun _ => ⟨rfl, (h.running hchild).2⟩⟩
  | _ => exact h.idle rfl rfl id

theorem tickArc (ha : TickArc W e i s s') : s'.OneChild := by
  -- a state other than the two running ones
  have hdown : ∀ st, s.rt.inst.state = st → st ≠ .fullTrust → st ≠ .fundamental → s.rt.childPid = 0 := by
    rintro st rfl
    exact h.down
  cases ha with
  | refresh => exact { h with }
  | fuse => exact h.idle rfl rfl id
  | startTimeout => exact h.idle rfl rfl id
  | startRetry => exact h.idle rfl rfl id
  | readyLost => exact h.idle rfl rfl id
  | readyExcised => exact h.idle rfl rfl id
  | forkAdopt hst hfork => exact ⟨fun _ => ⟨.inl hst, (h.forking hfork).2⟩, fun hneg => by simp at hneg⟩
  | forkMissing hst hfork => exact ⟨fun hne => absurd (h.forking hfork).1 hne, fun hneg => by simp at hneg⟩
  | promote hst hchild => exact ⟨fun _ => ⟨.inr rfl, (h.running hchild).2⟩, h.forking⟩
  | retry hst =>
    refine h.idle ?_ rfl id
    rcases hst with hst | hst
    · exact hdown _ hst (by simp) (by simp)
    · exact hdown _ hst (by simp) (by simp)
  | _ => exact h.idle (hdown _ ‹_› (by simp) (by simp)) rfl id

theorem spawnArc (hst : s.rt.inst.state = .newProcess) (ha : SpawnArc e s s') : s'.OneChild := by
  have hchild : s.rt.childPid = 0 := h.down (by simp [hst]) (by simp [hst])
  cases ha with
  | spawned => exact ⟨fun _ => ⟨.inl rfl, rfl⟩, fun hneg => absurd hneg (lt_irrefl 0)⟩
  | failed => exact h.idle hchild rfl id
  | slot => exact h.idle hchild rfl id
  | killed => exact ⟨fun hne => absurd rfl hne, fun hneg => absurd hneg (lt_irrefl 0)⟩

theorem fallbackUp : s.fallbackUp.OneChild := by
  unfold Service.fallbackUp
  dsimp only
  split
  case isTrue hidle =>
    simp only [Bool.and_eq_true, decide_eq_true_eq] at hidle
    exact h.idle hidle.1 rfl id
  · exact { h with }

theorem otherArc (ha : OtherArc e i s s') : s'.OneChild := by
  cases ha with
  | fallbackUp => exact h.fallbackUp
  | downStop => exact { h with }
  | downExcise hup hchild => exact h.idle hchild rfl id

theorem bindArc (ha : BindArc e s s') : s'.OneChild := by
  cases ha with
  | release => exact { h with }
  | start hheld hchild => exact h.idle hchild rfl id
  | hold => exact { h with }
  | excise hbind hheld hchild => exact h.idle hchild rfl id
  | reclassify hbind hheld hchild => exact h.idle hchild rfl id

theorem ctlArc (ha : CtlArc e i s s') : s'.OneChild := by
  cases ha with
  | start hst =>
    refine h.idle ?_ rfl id
    rcases hst with hst | hst
    · exact h.down (by simp [hst]) (by simp [hst])
    · exact h.down (by simp [hst]) (by simp [hst])
  | restartIdle hchild n hn => exact ⟨fun hne => absurd hchild hne, fun hneg => absurd hneg (not_lt.mpr hn)⟩
  | queue hst =>
    refine h.idle ?_ rfl id
    rcases hst with hst | hst | hst
    · exact h.down (by simp [hst]) (by simp [hst])
    · exact h.down (by simp [hst]) (by simp [hst])
    · exact h.down (by simp [hst]) (by simp [hst])
  | _ => exact { h with }

end

theorem arc {W : Nat → World → Prop} {k : Kind} (hk : k ≠ .hear) (h : s.OneChild) (ha : Arc W e i k s s') :
    s'.OneChild := by
  cases k with
  | help =>
    cases ha with
    | quiet hq => exact h.congr hq
    | tree => exact { h with }
  | exit => exact h.exitArc ha
  | done => cases ha <;> exact h.idle rfl rfl id
  | lost => cases ha <;> exact h.idle rfl rfl id
  | tick => exact h.tickArc ha
  | other => exact h.otherArc ha
  | stop =>
    cases ha with
    | bindStop => exact { h with }
  | bind => exact h.bindArc ha
  | monitor =>
    cases ha with
    | refresh => exact { h with }
    | retry hwait => exact h.idle (h.waiting hwait) rfl (by simp)
    | excise hwait => exact h.idle (h.waiting hwait) rfl (by simp)
  | hear => exact absurd rfl hk
  | wake =>
    cases ha with
    | wake hst hchild => exact h.idle hchild rfl id
  | ctl => exact h.ctlArc ha
  | halt =>
    cases ha with
    | stop => exact { h with }
    | stopIdle hchild n hn => exact ⟨fun hne => absurd hchild hne, fun hneg => absurd hneg (not_lt.mpr hn)⟩
  | pause =>
    cases ha with
    | resume => exact { h with }
  | _ => cases ha

theorem hearArc (h : s.OneChild) (hup : s.rt.main.wait = true →
    s.rt.inst.state = .fullTrust ∨ s.rt.inst.state = .fundamental) (ha : HearArc s s') : s'.OneChild := by
  cases ha with
  | adopt p hp hmain hwhy =>
    rcases hwhy with hwait | ⟨hpid, hchild⟩
    · refine ⟨fun _ => ⟨hup hwait, rfl⟩, fun hneg => ?_⟩
      simp [(h.forking hneg).2] at hwait
    · have hne : s.rt.childPid ≠ 0 := by rwa [hchild]
      exact ⟨fun _ => ⟨(h.running hne).1, rfl⟩, fun hneg => absurd hneg (h.forked hne)⟩
  | remember => exact { h with }

theorem of_fresh (h : s.Fresh) : s.OneChild := by
  constructor
  · simp [h.rt, fresh]
  · simp [h.rt, fresh]

theorem timerArm (h : s.OneChild) (hchild : s.rt.childPid = 0) (w : World) : (s.timerArm w).OneChild := by
  unfold Service.timerArm Service.timerArmPersistent Service.timerArmCalendar
  dsimp only
  split
  · split
    · exact h.idle hchild rfl id
    · exact h.idle hchild rfl id
  · exact h.idle hchild rfl id

theorem takeOver (h : s.OneChild) (w : World) (s0 : Service) : (s0.takeOver w s).OneChild := by
  obtain ⟨r, hr⟩ := s0.takeOver_rt w s
  constructor
  · rw [hr]
    exact h.running
  · rw [hr]
    exact h.forking

end Service.OneChild

/-! ## Events -/

def Config.sparesRunning (c : Config) (w : World) (live : List Service) : Bool :=
  live.all fun t => t.rt.childPid = 0 || c.services.all fun s =>
    !(s.conf.name = t.conf.name && (s.takeOver w t).flags.timer && t.rt.timerNext.sec = 0)

/-- The event is neither a reload that makes a timer of a running service nor the
`MAINPID=` of a service that was given up while it waited for one. -/
def Input.sparesRunning (e : Pid1) : Input → Bool
  | .hup w _ c => c.sparesRunning w e.services
  | .ctl w _ (.reload _ c) => c.sparesRunning w e.services
  | .notify w m => e.services.all fun s =>
    !(s.hears w m && m.mainpid ≠ 0 && s.rt.main.wait) || s.rt.inst.state = .fullTrust || s.rt.inst.state = .fundamental
  | _ => true

theorem Input.sparesRunning_reload (e : Pid1) {r : Reload} (hx : x.reload? = some r) :
    x.sparesRunning e = r.config.sparesRunning r.w e.services := by
  cases x with
  | hup w ws c =>
    cases hx
    rfl
  | ctl w ws c =>
    cases c with
    | reload evict c =>
      cases hx
      rfl
    | _ => cases hx
  | _ => cases hx

namespace Pid1

def OneChild (e : Pid1) : Prop :=
  ∀ (k : Nat) (s : Service), e.services[k]? = some s → s.OneChild

theorem OneChild.at_ (h : e.OneChild) (hi : i < e.count) : (e.at_ i).OneChild :=
  h i _ (getElem?_at hi)

theorem oneChild_boot (ws : Nat → World) (root : Bytes) (c : Config) : (boot ws root c).OneChild := by
  intro k s' hs'
  obtain ⟨s, hfresh, rfl⟩ := boot_getElem hs'
  split
  · exact (Service.OneChild.of_fresh hfresh).timerArm (by simp [hfresh.rt, fresh]) _
  · exact .of_fresh hfresh

section

variable (h : e.OneChild)
include h

theorem OneChild.adoptConfig {ws : Nat → World} {evict : Bool} {c : Config}
    (hc : c.sparesRunning w e.services = true) : (e.adoptConfig w ws evict c).OneChild := by
  intro k s' hs'
  obtain ⟨s, r, hfresh, hs, hren, rfl⟩ := adoptConfig_getElem hs'
  have hidle : ∀ r : Service, r.OneChild → r.rt.childPid = 0 → (r.armIfNew (ws k)).OneChild := by
    intro r hr hchild
    unfold armIfNew
    split
    · exact hr.timerArm hchild _
    · exact hr
  cases hren with
  | new => exact hidle s (.of_fresh hfresh) (by simp [hfresh.rt, fresh])
  | @kept t ht hname =>
    obtain ⟨j, hj⟩ := mem_iff_getElem?.mp ht
    have hkept := (h j t hj).takeOver w s
    obtain ⟨x, hx⟩ := s.takeOver_rt w t
    by_cases hchild : t.rt.childPid = 0
    · exact hidle _ hkept (by rw [hx]; exact hchild)
    · -- a running service is not armed
      obtain ⟨s0, hs0, d, g, rfl⟩ := resolve_getElem hs
      have hspare := all_eq_true.mp hc t ht
      simp only [Bool.or_eq_true, decide_eq_true_eq, hchild, false_or] at hspare
      have hs0 := all_eq_true.mp hspare s0 (mem_of_getElem? hs0)
      unfold armIfNew
      split
      case isTrue harm =>
        rw [Bool.and_eq_true, decide_eq_true_eq, takeOver_timer, hx] at harm
        have hcarry : s0.carriedTimer t = true := harm.1
        have hunarmed : t.rt.timerNext.sec = 0 := harm.2
        have hsame : s0.conf.name = t.conf.name := hname.symm
        simp [takeOver_timer, hcarry, hunarmed, hsame] at hs0
      · exact hkept
  | @again t ht hname =>
    obtain ⟨j, hj⟩ := mem_iff_getElem?.mp ht
    have hleft : t.takenOver.OneChild := (h j t hj).idle rfl rfl id
    obtain ⟨x, hx⟩ := s.takeOver_rt w t.takenOver
    exact hidle _ (hleft.takeOver w s) (by rw [hx]; rfl)

theorem OneChild.ctlAdd (w : World) (path : Bytes) (file : Option SvcFile) : (e.ctlAdd w path file).1.OneChild := by
  intro k s' hs'
  rcases ctlAdd_getElem hs' with ⟨s, hs, d, g, rfl⟩ | ⟨_, s, hfresh, _, _, rfl⟩
  · exact ⟨(h k s hs).running, (h k s hs).forking⟩
  · split
    · exact (Service.OneChild.of_fresh hfresh).timerArm (by simp [hfresh.rt, fresh]) _
    · exact .of_fresh hfresh

theorem OneChild.notifyAt {m : Msg}
    (hspare : (Input.notify w m).sparesRunning e = true) (hi : i < e.count) {W : Nat → World → Prop}
    {G : Pid1 → Nat → Prop} (hu : Moves W G (e.hearKinds w m) e u) : (u.at_ i).OneChild := by
  by_cases hnamed : (e.at_ i).hears w m = true ∧ m.mainpid ≠ 0
  · -- it may be adopted: if it waits, it is still trusted
    have hup : (e.at_ i).rt.main.wait = true →
        (e.at_ i).rt.inst.state = .fullTrust ∨ (e.at_ i).rt.inst.state = .fundamental := by
      intro hwait
      have hone := all_eq_true.mp hspare _ (mem_of_getElem? (getElem?_at hi))
      simpa [hnamed.1, hnamed.2, hwait] using hone
    refine (hu.invariantAt (P := fun s => s.OneChild ∧ (s.rt.main.wait = true →
      s.rt.inst.state = .fullTrust ∨ s.rt.inst.state = .fundamental)) (fun v k s s' _ hk ha hs => ?_)
      (by simp [hearKinds]) (by simp [hearKinds]) ⟨h.at_ hi, hup⟩).1
    rcases hk with rfl | ⟨_, rfl | ⟨rfl, _⟩⟩
    · refine ⟨hs.1.arc (by simp) ha, ?_⟩
      cases ha with
      | quiet hq =>
        have hst : s'.rt.inst.state = s.rt.inst.state := (congrArg (·.rt.inst.state) hq :)
        have hwait : s'.rt.main.wait = s.rt.main.wait := (congrArg (·.rt.main.wait) hq :)
        rw [hst, hwait]
        exact hs.2
      | tree => exact hs.2
    · cases ha
    · refine ⟨hs.1.hearArc hs.2 ha, ?_⟩
      cases ha with
      | adopt => simp
      | remember => exact hs.2
  · refine hu.invariantAt (fun v k s s' _ hk ha hs => hs.arc ?_ ha)
      (by simp [hearKinds]) (by simp [hearKinds]) (h.at_ hi)
    rintro rfl
    rcases hk with hk | ⟨hhears, hk | hk⟩
    · cases hk
    · cases hk
    · exact hnamed ⟨hhears, hk.2⟩

theorem OneChild.during (hspare : x.sparesRunning e = true)
    (hu : Moves x.uses (fun _ _ => True) (x.kinds e) e u) : u.OneChild := by
  have hall : ∀ i, i < e.count → (u.at_ i).OneChild := by
    intro i hi
    have hhear : (∀ w m, x ≠ .notify w m) → ¬ x.kinds e i .hear := by
      cases x with
      | notify w m => exact fun hno => absurd rfl (hno w m)
      | ctl w ws c => exact fun _ hk => by simpa [Kind.byOperator] using Cmd.kinds_cases hk
      | _ => simp [Input.kinds, exitKinds, Kind.inPass]
    by_cases hnote : ∃ w m, x = .notify w m
    · obtain ⟨w, m, rfl⟩ := hnote
      exact h.notifyAt hspare hi hu
    · refine hu.invariantAt (fun v k s s' _ hk ha hs => hs.arc ?_ ha)
        (fun _ v s t s' _ hst ha hq hs => (hs.spawnArc hst ha).congr hq) (fun _ s b hs => { hs with })
        (h.at_ hi)
      rintro rfl
      exact hhear (fun w m hx => hnote ⟨w, m, hx⟩) hk
  intro k s hs
  have hk : k < u.count := (List.getElem?_eq_some_iff.mp hs).1
  rw [← at_eq hs]
  exact hall k (hu.count ▸ hk)

theorem OneChild.step (hspare : x.sparesRunning e = true) : (e.step x).OneChild := by
  cases step_cases e x with
  | moves hm => exact h.during hspare hm
  | refused heq => rwa [heq]
  | reload r hx _ heq =>
    rw [heq]
    exact h.adoptConfig ((Input.sparesRunning_reload e hx).symm.trans hspare)
  | add w ws path file _ heq =>
    rw [heq]
    exact h.ctlAdd w path file

/-! ## Spawns -/

def SpawnsDown (e : Pid1) : Prop :=
  ∀ x ∈ e.spawns, (x.2.getD x.1 default).rt.childPid = 0

theorem SpawnsDown.step (hs : e.SpawnsDown) (hspare : x.sparesRunning e = true) : (e.step x).SpawnsDown := by
  cases step_cases e x with
  | moves hm =>
    refine hm.rule (fun u v _ hv hu => by rwa [SpawnsDown, hv])
      (fun u j k s s' _ _ _ _ hu => hu) ?_ (fun u j b _ _ _ hu => hu) hs
    intro u j s' s'' t hm hj _ hst hs' _ _ _ hu x hx
    have hcall : ((u.spawnCall j s').put j s'').spawns = u.spawns ++ [(j, (u.put j s').services)] := spawns_emit _ _
    rw [hcall, mem_append] at hx
    rcases hx with hx | hx
    · exact hu x hx
    · obtain rfl := mem_singleton.mp hx
      have hat : (u.put j s').services.getD j default = s' := at_put hj
      have hchild : s'.rt.childPid = (u.at_ j).rt.childPid := (congrArg (·.rt.childPid) hs' :)
      rw [hat, hchild]
      exact ((h.during hspare hm).at_ hj).down (by simp [hst]) (by simp [hst])
  | refused heq => rwa [heq]
  | reload r _ _ heq => rwa [heq, SpawnsDown, spawns_adoptConfig]
  | add w ws path file _ heq => rwa [heq, SpawnsDown, spawns_ctlAdd]

end

theorem mem_spawns {table : List Service} : (i, table) ∈ e.spawns ↔ Effect.spawn i table ∈ e.trace := by
  simp only [spawns, mem_filterMap]
  constructor
  · rintro ⟨k, hk, heq⟩
    cases k with
    | spawn j t =>
      obtain ⟨rfl, rfl⟩ := Prod.mk.inj (Option.some.inj heq)
      exact hk
    | _ => cases heq
  · exact fun h => ⟨_, h, rfl⟩

/-- In every run in which no reload makes a timer of a running service and no `MAINPID=`
is taken from a service that was given up, `service_spawn` is only ever called for a
service without a main process. -/
theorem spawn_without_child {s e : Pid1} (hs : Started s)
    (h : Run.Reaches step (fun e x => Input.sparesRunning e x = true) s e) {i : Nat} {table : List Service}
    (hspawn : Effect.spawn i table ∈ e.trace) : (table.getD i default).rt.childPid = 0 := by
  have hinv : e.OneChild ∧ e.SpawnsDown := by
    refine h.invariant (fun e => e.OneChild ∧ e.SpawnsDown) ?_ fun u x hu hx => ⟨hu.1.step hx, hu.2.step hu.1 hx⟩
    obtain ⟨ws, root, c, _, rfl⟩ := hs
    exact ⟨oneChild_boot ws root c, by simp [SpawnsDown, spawns, boot]⟩
  exact hinv.2 _ (mem_spawns.mpr hspawn)

/-! ## A service that becomes a timer -/

/-- The file of a service, as a plain one or as a timer that fires every minute. -/
def webFile (timer : Bool) : SvcFile where
  fname := cstr "web.svc"
  conf := { name := cstr "web", exec := cstr "/bin/web", timerIntervalSec := if timer then 60 else 0 }
  flags := { timer := timer }

def webConfig (timer : Bool) : Config where
  dir := { files := [webFile timer] }
  integrity := false

def passAt (sec : Int) (pid : Nat) : Input :=
  .pass { tick := fun _ => { now := ⟨sec, 0⟩, fork := some pid } }

def webRun : List Input :=
  [passAt 1 7, .ctl { now := ⟨5, 0⟩ } (fun _ => { now := ⟨5, 0⟩ }) (.reload false (webConfig true)),
    passAt 6 8, passAt 7 9]

def webBoot : Pid1 :=
  boot (fun _ => {}) (cstr "/cg") (webConfig false)

theorem started_webBoot : Started webBoot :=
  ⟨_, _, _, by decide +kernel, rfl⟩

/-- The second spawn is made while the first process runs. -/
theorem second_child_of_timer : ∃ s e, Started s ∧ Run.Reaches step (fun _ _ => True) s e ∧
    ∃ i table, Effect.spawn i table ∈ e.trace ∧ (table.getD i default).rt.childPid = 7 := by
  refine ⟨webBoot, webRun.foldl step webBoot, started_webBoot, (Run.AllOk.reaches ?_), ?_⟩
  · simp [webRun, Run.AllOk]
  · have hany : (webRun.foldl step webBoot).spawns.any (fun x => (x.2.getD x.1 default).rt.childPid = 7) = true := by
      decide +kernel
    obtain ⟨⟨i, table⟩, hmem, hchild⟩ := any_eq_true.mp hany
    exact ⟨i, table, mem_spawns.mp hmem, of_decide_eq_true hchild⟩

/-- The first process fails, and the service is spawned once more. -/
def webAgain : Pid1 :=
  [passAt 1 7, .child { now := ⟨2, 0⟩ } 7 (.exited 1), passAt 3 8, passAt 4 8, passAt 20 8].foldl step webBoot

def webTable : List Service :=
  webAgain.spawns.getLast?.elim [] Prod.snd

theorem spawn_without_child_again : webAgain.spawns.length = 2 ∧ Effect.spawn 0 webTable ∈ webAgain.trace ∧
    (webTable.getD 0 default).rt.childPid = 0 := by
  have hspawn : Effect.spawn 0 webTable ∈ webAgain.trace := by decide +kernel
  refine ⟨by decide +kernel, hspawn, spawn_without_child started_webBoot (Run.AllOk.reaches ?_) hspawn⟩
  decide +kernel

end Pid1

end SchemaInit.Engine
