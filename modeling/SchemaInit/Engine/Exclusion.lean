/-
# `SchemaInit.Engine.Exclusion` — a service and its fallback take turns

While a service is parked its fallback runs; when it comes back the fallback is told to
stop, and that takes time.  So `tick_service` does not spawn a service whose mark
(`fallback_live`) is set while the `child_pid` of its fallback is.

The guard is as good as the mark and the `child_pid`.  A fallback that hands over to a
daemon has no `child_pid` between its launcher and the daemon's `pid_file`; and the
mark goes with a long run of the service itself, which can be had next to a requested
fallback by a service that is started without letting go of it: by the return of its
bound (`bind=`), or by another service whose own fallback it is
(`spawned_next_to_fallback` has a run of each).  For every other pair
`never_next_to_fallback` holds, and these are the invariants behind it:

    the fallback is requested    the service is marked, and rests (`DORMANT`, `EXCISED`)
    the fallback runs            the service is marked, and does not run
-/
import SchemaInit.Engine.Fallback

namespace SchemaInit.Engine

open Loc Service List

variable {s s' t x x' : Service} {W : Nat → World → Prop} {e e' : Pid1} {i j n q : Nat}
    {k : Kind} {table : List Service}
    {f : Service → Service} {G : Pid1 → Nat → Prop} {K : Nat → Kind → Prop}
    {groups : List State} {own : Kind → Prop} {w : World}

/-! ## A service alone -/

/-- The main process of the service runs: it is the child, or a daemon that is not known yet. -/
def Service.mainUp (s : Service) : Bool :=
  s.rt.childPid ≠ 0 || s.rt.fork.state < 0 || s.rt.main.wait

structure Service.Direct (s : Service) : Prop where
  file : s.conf.pidFile = []
  main : s.flags.mainPidNotify = false
  fork : 0 ≤ s.rt.fork.state
  wait : s.rt.main.wait = false

structure Service.Unbound (s : Service) : Prop where
  bindName : s.conf.bindName = []
  held : s.rt.bind.held = false

def Service.resting (s : Service) : Bool :=
  s.rt.inst.state = .dormant || s.rt.inst.state = .excised

def Service.serving (s : Service) : Bool :=
  s.rt.inst.state = .fullTrust || s.rt.inst.state = .fundamental

theorem Service.serving_of_resting (h : s.resting = true) : s.serving = false := by
  simp only [resting, Bool.or_eq_true, decide_eq_true_eq] at h
  rcases h with h | h
  · simp [serving, h]
  · simp [serving, h]

theorem Service.OneChild.serving (h : s.OneChild) (hchild : s.rt.childPid ≠ 0) : s.serving = true := by
  rcases (h.running hchild).1 with hst | hst
  · simp [Service.serving, hst]
  · simp [Service.serving, hst]

namespace Service.Direct

variable (h : s.Direct)
include h

theorem congr (hq : s'.core = s.core) : s'.Direct where
  file := (congrArg (·.conf.pidFile) hq :).trans h.file
  main := (congrArg (·.flags.mainPidNotify) hq :).trans h.main
  fork := h.fork.trans_eq (congrArg (·.rt.fork.state) hq :).symm
  wait := (congrArg (·.rt.main.wait) hq :).trans h.wait

theorem of_static (hstatic : s'.static = s.static) (hfork : 0 ≤ s'.rt.fork.state)
    (hwait : s'.rt.main.wait = false) : s'.Direct where
  file := (congrArg (·.1.pidFile) hstatic).trans h.file
  main := (congrArg (·.2.1.mainPidNotify) hstatic).trans h.main
  fork := hfork
  wait := hwait

theorem not_mainUp (hchild : s.rt.childPid = 0) : s.mainUp = false := by
  have hfork : ¬ s.rt.fork.state < 0 := not_lt.mpr h.fork
  simp [mainUp, hchild, hfork, h.wait]

theorem fallbackUp : s.fallbackUp.Direct :=
  h.of_static s.fallbackUp_keeps.1 (by simpa using h.fork) (by simpa using h.wait)

theorem waits (ha : Arc W e i k s s') : 0 ≤ s'.rt.fork.state ∧ s'.rt.main.wait = false := by
  have hsame : 0 ≤ s.rt.fork.state ∧ s.rt.main.wait = false := ⟨h.fork, h.wait⟩
  cases k with
  | help =>
    cases ha with
    | quiet hq => exact ⟨(h.congr hq).fork, (h.congr hq).wait⟩
    | tree => exact hsame
  | exit =>
    cases ha with
    | bound => exact ⟨h.fork, rfl⟩
    | launcherAdopt => exact ⟨h.fork, rfl⟩
    | launcherAwait hchild hmain => exact absurd (hmain.symm.trans h.main) (by simp)
    | forkAdopt p hp => exact ⟨Int.one_nonneg, h.wait⟩
    | forkWait hchild hfile => exact absurd h.file hfile
    | _ => exact hsame
  | tick =>
    cases ha with
    | forkAdopt => exact ⟨Int.one_nonneg, h.wait⟩
    | forkMissing => exact ⟨le_refl 0, h.wait⟩
    | _ => exact hsame
  | other =>
    cases ha with
    | fallbackUp => exact ⟨h.fallbackUp.fork, h.fallbackUp.wait⟩
    | downStop => exact hsame
    | downExcise => exact hsame
  | monitor =>
    cases ha with
    | refresh => exact hsame
    | retry => exact ⟨h.fork, rfl⟩
    | excise => exact ⟨h.fork, rfl⟩
  | hear =>
    cases ha with
    | adopt => exact ⟨h.fork, rfl⟩
    | remember => exact hsame
  | ctl =>
    cases ha with
    | restartIdle hchild n hn => exact ⟨hn, rfl⟩
    | _ => exact hsame
  | halt =>
    cases ha with
    | stop => exact hsame
    | stopIdle hchild n hn => exact ⟨hn, rfl⟩
  | _ => cases ha <;> exact hsame

theorem arc (ha : Arc W e i k s s') : s'.Direct :=
  h.of_static ha.static (h.waits ha).1 (h.waits ha).2

theorem spawnArc (ha : SpawnArc e s s') : s'.Direct := by
  refine h.of_static ha.static ?_ ?_
  · cases ha with
    | spawned => exact le_refl 0
    | killed => exact le_refl 0
    | _ => exact h.fork
  · cases ha with
    | spawned => rfl
    | killed => rfl
    | _ => exact h.wait

theorem child (ha : Arc W e i k s s') (hchild : s.rt.childPid = 0) : s'.rt.childPid = 0 := by
  cases k with
  | help =>
    cases ha with
    | quiet hq => exact (congrArg (·.rt.childPid) hq :).trans hchild
    | tree => exact hchild
  | exit =>
    cases ha with
    | launcherAdopt hne => exact absurd hchild hne
    | forkAdopt p hp hne => exact absurd hchild hne
    | refresh => exact hchild
    | mark => exact hchild
    | hold => exact hchild
    | _ => rfl
  | done => cases ha <;> rfl
  | lost => cases ha <;> rfl
  | tick =>
    cases ha with
    | forkAdopt hst hfork => exact absurd hfork (not_lt.mpr h.fork)
    | fuse => rfl
    | startTimeout => rfl
    | startRetry => rfl
    | readyLost => rfl
    | readyExcised => rfl
    | _ => exact hchild
  | other =>
    cases ha with
    | fallbackUp => simpa using hchild
    | downStop => exact hchild
    | downExcise => exact hchild
  | hear =>
    cases ha with
    | adopt p hp hmain => exact absurd (hmain.symm.trans h.main) (by simp)
    | remember => exact hchild
  | _ => cases ha <;> exact hchild

end Service.Direct

theorem Service.Unbound.arc (h : s.Unbound) (ha : Arc W e i k s s') : s'.Unbound := by
  have hname : s'.conf.bindName = [] :=
    (congrArg (·.1.bindName) ha.static).trans h.bindName
  refine ⟨hname, ?_⟩
  cases k with
  | help =>
    cases ha with
    | quiet hq => exact (congrArg (·.rt.bind.held) hq :).trans h.held
    | tree => exact h.held
  | exit =>
    cases ha with
    | hold hbind => exact absurd h.bindName hbind
    | _ => exact h.held
  | other =>
    cases ha with
    | fallbackUp => simpa using h.held
    | downStop => exact h.held
    | downExcise => exact h.held
  | stop => exact absurd rfl (ha.unbound h.bindName h.held).1
  | bind => exact absurd rfl (ha.unbound h.bindName h.held).2
  | ctl =>
    cases ha with
    | rearm => rfl
    | _ => exact h.held
  | halt => cases ha <;> rfl
  | _ => cases ha <;> exact h.held

/-! ## The pair -/

/-- Between a service `s` and its fallback `x`: the fallback runs, or is asked for, only while
the mark of the service is set, and it runs only while the service does not. -/
structure Guarded (s x : Service) : Prop where
  own : s.Direct
  unbound : s.Unbound
  one : s.OneChild
  other : x.Direct
  asked : x.rt.card.standbyUp = true → s.rt.card.fallbackLive = true
  runs : x.rt.childPid ≠ 0 → s.rt.card.fallbackLive = true ∧ s.serving = false

structure Apart (s x : Service) : Prop extends Guarded s x where
  rests : x.rt.card.standbyUp = true → s.resting = true

structure Service.Off (x : Service) : Prop where
  child : x.rt.childPid = 0
  unasked : x.rt.card.standbyUp = false

def Service.links (s : Service) :=
  (s.static, s.rt.childPid, s.rt.inst.state, s.rt.fork.state, s.rt.main.wait, s.rt.bind.held, s.rt.card.fallbackLive,
    s.rt.card.standbyUp)

def Kind.calm : Kind → Bool
  | .tick | .other | .ctl | .spawn => false
  | _ => true

theorem Arc.calm (h : Arc W e i k s s')
    (hk : k.calm = true) (hd : s.Direct) (hu : s.Unbound) (hchild : s.rt.childPid = 0) :
    s'.rt.card.fallbackLive = s.rt.card.fallbackLive ∧ (s.serving = false → s'.serving = false) ∧
      (s.resting = true → s'.resting = true) := by
  cases k with
  | help =>
    cases h with
    | quiet hq =>
      have hst : s'.rt.inst.state = s.rt.inst.state := (congrArg (·.rt.inst.state) hq :)
      refine ⟨(congrArg (·.rt.card.fallbackLive) hq :), ?_, ?_⟩
      · simp only [serving, hst]
        exact id
      · simp only [resting, hst]
        exact id
    | tree => exact ⟨rfl, id, id⟩
  | exit => exact absurd hchild (h.running (.inl rfl))
  | done => exact absurd hchild (h.running (.inr (.inl rfl)))
  | lost => exact absurd hchild (h.running (.inr (.inr rfl)))
  | stop => exact absurd rfl (h.unbound hu.bindName hu.held).1
  | bind => exact absurd rfl (h.unbound hu.bindName hu.held).2
  | monitor =>
    cases h with
    | refresh hage hwait => exact absurd (hwait.symm.trans hd.wait) (by simp)
    | retry hwait => exact absurd (hwait.symm.trans hd.wait) (by simp)
    | excise hwait => exact absurd (hwait.symm.trans hd.wait) (by simp)
  | hear =>
    cases h with
    | adopt p hp hmain => exact absurd (hmain.symm.trans hd.main) (by simp)
    | remember p hmain => exact absurd (hmain.symm.trans hd.main) (by simp)
  | wake =>
    cases h with
    | wake hst => exact ⟨rfl, fun _ => by simp [serving], fun hr => by simp [resting, hst] at hr⟩
  | halt =>
    cases h with
    | stop hne => exact absurd hchild hne
    | stopIdle => exact ⟨rfl, fun _ => by simp [serving], fun _ => by simp [resting]⟩
  | pause =>
    cases h with
    | resume t hst hne => exact absurd hchild hne
  | freeze => cases h
  | op => cases h
  | tick => cases hk
  | other => cases hk
  | ctl => cases hk
  | spawn => cases hk

namespace Guarded

theorem idle_of_serving (h : Guarded s x) (hs : s.serving = true) : x.rt.childPid = 0 := by
  by_contra hchild
  simp [(h.runs hchild).2] at hs

theorem own_idle (h : Guarded s x) (hown : s'.Direct) (hbind : s'.Unbound) (hone : s'.OneChild)
    (hlive : s'.rt.card.fallbackLive = s.rt.card.fallbackLive) (hidle : s'.serving = false) : Guarded s' x where
  own := hown
  unbound := hbind
  one := hone
  other := h.other
  asked := fun hup => hlive.trans (h.asked hup)
  runs := fun hchild => ⟨hlive.trans (h.runs hchild).1, hidle⟩

theorem unasked (h : Guarded s x) (hup : x.rt.card.standbyUp = false) : Apart s x :=
  { h with rests := by simp [hup] }

end Guarded

namespace Apart

theorem beside (hown : s.Direct) (hbind : s.Unbound) (hone : s.OneChild)
    (hx : x.Direct) (hoff : x.Off) : Apart s x where
  own := hown
  unbound := hbind
  one := hone
  other := hx
  asked := by simp [hoff.unasked]
  runs := by simp [hoff.child]
  rests := by simp [hoff.unasked]

variable (h : Apart s x)
include h

theorem off_of_serving (hs : s.serving = true) : x.Off where
  child := h.idle_of_serving hs
  unasked := by
    cases hup : x.rt.card.standbyUp with
    | false => rfl
    | true => simp [serving_of_resting (h.rests hup)] at hs

theorem arcOther (ha : Arc W e i k x x') (hother : k ≠ .other) (hctl : k ≠ .ctl) : Apart s x' where
  __ := h
  other := h.other.arc ha
  asked := by
    rw [ha.standbyUp hother hctl]
    exact h.asked
  runs := fun hne => h.runs fun hchild => hne (h.other.child ha hchild)
  rests := by
    rw [ha.standbyUp hother hctl]
    exact h.rests

theorem spawnOther (hup : x.rt.card.standbyUp = true) (ha : SpawnArc e x t) (hq : x'.core = t.core) : Apart s x' where
  __ := h
  other := (h.other.spawnArc ha).congr hq
  asked := fun _ => h.asked hup
  runs := fun _ => ⟨h.asked hup, serving_of_resting (h.rests hup)⟩
  rests := fun _ => h.rests hup

theorem arcOwn (ha : Arc W e i k s s') (hk : k.calm = true) : Apart s' x := by
  have hone : s'.OneChild := by
    by_cases hhear : k = .hear
    · subst hhear
      exact h.one.hearArc (by simp [h.own.wait]) ha
    · exact h.one.arc hhear ha
  by_cases hchild : s.rt.childPid = 0
  · obtain ⟨hlive, hserving, hresting⟩ := ha.calm hk h.own h.unbound hchild
    exact {
      own := h.own.arc ha
      unbound := h.unbound.arc ha
      one := hone
      other := h.other
      asked := fun hup => hlive.trans (h.asked hup)
      runs := fun hne => ⟨hlive.trans (h.runs hne).1, hserving (h.runs hne).2⟩
      rests := fun hup => hresting (h.rests hup) }
  · exact .beside (h.own.arc ha) (h.unbound.arc ha) hone h.other (h.off_of_serving (h.one.serving hchild))

theorem tickOwn (hoff : x.Off) (ha : Arc W e i .tick s s') : Apart s' x :=
  .beside (h.own.arc ha) (h.unbound.arc ha) (h.one.arc (by simp) ha) h.other hoff

theorem spawnOwn (hoff : x.Off) (hst : s.rt.inst.state = .newProcess) (ha : SpawnArc e s t)
    (hq : s'.core = t.core) : Apart s' x := by
  refine .beside ((h.own.spawnArc ha).congr hq) ⟨?_, ?_⟩ ((h.one.spawnArc hst ha).congr hq) h.other hoff
  · have ht : t.conf.bindName = s.conf.bindName :=
      congrArg (·.1.bindName) ha.static
    exact (congrArg (·.conf.bindName) hq :).trans (ht.trans h.unbound.bindName)
  · have ht : t.rt.bind.held = s.rt.bind.held := by cases ha <;> rfl
    exact (congrArg (·.rt.bind.held) hq :).trans (ht.trans h.unbound.held)

theorem congr_other (hx : x'.Direct) (hchild : x'.rt.childPid = x.rt.childPid)
    (hup : x'.rt.card.standbyUp = x.rt.card.standbyUp) : Apart s x' where
  __ := h
  other := hx
  asked := by
    rw [hup]
    exact h.asked
  runs := by
    rw [hchild]
    exact h.runs
  rests := by
    rw [hup]
    exact h.rests

theorem congr (hs : s'.links = s.links) (hx : x'.links = x.links) : Apart s' x' := by
  simp only [links, Prod.mk.injEq] at hs hx
  obtain ⟨hstatic, hchild, hst, hfork, hwait, hheld, hlive, -⟩ := hs
  obtain ⟨hxstatic, hxchild, -, hxfork, hxwait, -, -, hxup⟩ := hx
  have hbind : s'.conf.bindName = s.conf.bindName :=
    congrArg (·.1.bindName) hstatic
  refine ⟨⟨?_, ⟨hbind.trans h.unbound.bindName, hheld.trans h.unbound.held⟩, ⟨?_, ?_⟩, ?_, ?_, ?_⟩, ?_⟩
  · exact h.own.of_static hstatic (hfork ▸ h.own.fork) (hwait.trans h.own.wait)
  · rw [hchild, hst, hwait]
    exact h.one.running
  · rw [hfork, hchild, hwait]
    exact h.one.forking
  · exact h.other.of_static hxstatic (hxfork ▸ h.other.fork) (hxwait.trans h.other.wait)
  · rw [hxup, hlive]
    exact h.asked
  · rw [hxchild, hlive, serving, hst]
    exact h.runs
  · rw [hxup, resting, hst]
    exact h.rests

end Apart

theorem Service.Off.arc (h : x.Off) (hd : x.Direct)
    (ha : Arc W e i k x x') (hother : k ≠ .other) (hctl : k ≠ .ctl) : x'.Off where
  child := hd.child ha h.child
  unasked := (ha.standbyUp hother hctl).trans h.unasked

/-! ## The table -/

namespace Pid1

/-- Service `i` was never spawned while the main process of service `j` ran. -/
def Clear (i j : Nat) (e : Pid1) : Prop :=
  ∀ table, (i, table) ∈ e.spawns → (table.getD j default).mainUp = false

structure Exclusive (i j : Nat) (e : Pid1) : Prop where
  pair : Apart (e.at_ i) (e.at_ j)
  clear : e.Clear i j

theorem put_pair {P : Service → Service → Prop} (hne : i ≠ j) (hq : q < e.count) (hi : q = i → P s (e.at_ j))
    (hj : q = j → P (e.at_ i) s) (helse : q ≠ i → q ≠ j → P (e.at_ i) (e.at_ j)) :
    P ((e.put q s).at_ i) ((e.put q s).at_ j) := by
  by_cases hqi : q = i
  · rw [← hqi, at_put hq, at_put_ne (hqi ▸ hne)]
    exact hi hqi
  · by_cases hqj : q = j
    · rw [← hqj, at_put hq, at_put_ne hqi]
      exact hj hqj
    · rw [at_put_ne hqi, at_put_ne hqj]
      exact helse hqi hqj

theorem clear_spawnCall {k : Nat} (h : e.Clear i j)
    (hk : k = i → ((e.put k s).at_ j).mainUp = false) : (e.spawnCall k s).Clear i j := by
  have hcall : (e.spawnCall k s).spawns = e.spawns ++ [(k, (e.put k s).services)] := spawns_emit _ _
  intro table hmem
  rw [hcall, mem_append, mem_singleton, Prod.mk.injEq] at hmem
  rcases hmem with hold | ⟨rfl, rfl⟩
  · exact h table hold
  · exact hk rfl

end Pid1

namespace Moves

theorem pairRule {P : Service → Service → Prop} (hne : i ≠ j)
    (harci : ∀ u k s s' x, K i k → Arc W u i k s s' → P s x → P s' x)
    (harcj : ∀ u k s x x', K j k → Arc W u j k x x' → P s x → P s x')
    (hspawni : K i .spawn → ∀ u s t s' x, s.rt.inst.state = .newProcess → SpawnArc u s t → core s' = t.core →
      P s x → P s' x ∧ x.mainUp = false)
    (hspawnj : K j .spawn → ∀ u t s', Moves W G K e u → G u j → SpawnArc u (u.at_ j) t → core s' = t.core →
      P (u.at_ i) (u.at_ j) → P (u.at_ i) s')
    (hfreezei : ∀ (s x : Service) (b : Bool), P s x → P { s with rt.isFrozen := b } x)
    (hfreezej : ∀ (s x : Service) (b : Bool), P s x → P s { x with rt.isFrozen := b })
    (h : Moves W G K e e') (start : P (e.at_ i) (e.at_ j)) (hclear : e.Clear i j) :
    P (e'.at_ i) (e'.at_ j) ∧ e'.Clear i j := by
  refine h.rule (R := fun u => P (u.at_ i) (u.at_ j) ∧ u.Clear i j) ?_ ?_ ?_ ?_ ⟨start, hclear⟩
  · intro u v hserv hspawns hu
    simp only [Pid1.at_, Pid1.Clear, hserv, hspawns]
    exact hu
  · rintro u q k s s' hm hq hk ha ⟨hu, hc⟩
    rw [← Pid1.put_put u q s s']
    refine ⟨Pid1.put_pair hne (by simpa using hq) ?_ ?_ fun _ _ => hu, hc⟩
    · rintro rfl
      rw [Pid1.at_put hq] at hu
      exact harci u k s s' _ hk ha hu
    · rintro rfl
      rw [Pid1.at_put hq] at hu
      exact harcj u k _ s s' hk ha hu
  · rintro u q s' s'' t hm hq hk hst _ hg ha hcore ⟨hu, hc⟩
    have hcount : q < (u.spawnCall q s').count := (Pid1.count_put u q s').symm ▸ hq
    have hat : ∀ k, q ≠ k → (u.spawnCall q s').at_ k = u.at_ k := fun k hk => Pid1.at_put_ne hk
    constructor
    · refine Pid1.put_pair hne hcount ?_ ?_ fun hi hj => ?_
      · rintro rfl
        rw [hat j hne]
        exact (hspawni hk u _ t s'' _ hst ha hcore hu).1
      · rintro rfl
        rw [hat i hne.symm]
        exact hspawnj hk u t s'' hm hg ha hcore hu
      · rwa [hat i hi, hat j hj]
    · refine Pid1.clear_spawnCall hc ?_
      rintro rfl
      rw [Pid1.at_put_ne hne]
      exact (hspawni hk u _ t s'' _ hst ha hcore hu).2
  · rintro u q b hm hq hk ⟨hu, hc⟩
    refine ⟨Pid1.put_pair hne hq ?_ ?_ fun _ _ => hu, hc⟩
    · rintro rfl
      exact hfreezei _ _ b hu
    · rintro rfl
      exact hfreezej _ _ b hu

theorem calm (hne : i ≠ j) (hi : ∀ k, K i k → k.calm = true) (hj : ∀ k, K j k → k ≠ .other ∧ k ≠ .ctl)
    (hg : ∀ u, Moves W G K e u → G u j → K j .spawn → (u.at_ j).rt.card.standbyUp = true) (h : Moves W G K e e')
    (he : e.Exclusive i j) : e'.Exclusive i j := by
  obtain ⟨hp, hc⟩ := h.pairRule hne (fun u k s s' x hk ha hs => hs.arcOwn ha (hi k hk))
    (fun u k s x x' hk ha hs => hs.arcOther ha (hj k hk).1 (hj k hk).2)
    (fun hk => absurd (hi _ hk) (by simp [Kind.calm]))
    (fun hk u t s' hm hgu ha hq hu => hu.spawnOther (hg u hm hgu hk) ha hq) (fun s x b hs => hs.congr rfl rfl)
    (fun s x b hs => hs.congr rfl rfl) he.pair he.clear
  exact ⟨hp, hc⟩

theorem allCalm (hne : i ≠ j) (h : Moves W G (fun _ k => k.calm = true) e e') (he : e.Exclusive i j) :
    e'.Exclusive i j := by
  refine h.calm hne (fun _ hk => hk) (fun k hk => ⟨?_, ?_⟩) (fun _ _ _ hk => by cases hk) he
  · rintro rfl
    cases hk
  · rintro rfl
    cases hk

theorem beside (hne : i ≠ j) (hi : ∀ k, K i k → k.calm = true ∨ k = .tick ∨ k = .spawn)
    (hj : ∀ k, K j k → k ≠ .other ∧ k ≠ .ctl ∧ k ≠ .spawn) (h : Moves W G K e e') (he : e.Exclusive i j)
    (hoff : (e.at_ j).Off) : e'.Exclusive i j ∧ (e'.at_ j).Off := by
  suffices hall : (Apart (e'.at_ i) (e'.at_ j) ∧ (e'.at_ j).Off) ∧ e'.Clear i j from ⟨⟨hall.1.1, hall.2⟩, hall.1.2⟩
  refine h.pairRule (P := fun s x => Apart s x ∧ x.Off) hne ?_ ?_ ?_ ?_ ?_ ?_ ⟨he.pair, hoff⟩ he.clear
  · rintro u k s s' x hk ha ⟨hs, hx⟩
    rcases hi k hk with hcalm | rfl | rfl
    · exact ⟨hs.arcOwn ha hcalm, hx⟩
    · exact ⟨hs.tickOwn hx ha, hx⟩
    · exact ha.elim
  · rintro u k s x x' hk ha ⟨hs, hx⟩
    obtain ⟨hother, hctl, -⟩ := hj k hk
    exact ⟨hs.arcOther ha hother hctl, hx.arc hs.other ha hother hctl⟩
  · rintro - u s t s' x hst ha hq ⟨hs, hx⟩
    exact ⟨⟨hs.spawnOwn hx hst ha hq, hx⟩, hs.other.not_mainUp hx.child⟩
  · exact fun hk => absurd rfl (hj _ hk).2.2
  · exact fun s x b hs => ⟨hs.1.congr rfl rfl, hs.2⟩
  · exact fun s x b hs => ⟨hs.1.congr rfl rfl, { hs.2 with }⟩

theorem unasked (hj : ∀ k, K j k → k ≠ .other ∧ k ≠ .ctl) (h : Moves W G K e e')
    (hup : (e.at_ j).rt.card.standbyUp = false) : (e'.at_ j).rt.card.standbyUp = false := by
  refine h.invariantAt (P := fun s => s.rt.card.standbyUp = false) ?_ ?_ (fun _ s b hs => hs) hup
  · intro u k s s' _ hk ha hs
    exact (ha.standbyUp (hj k hk).1 (hj k hk).2).trans hs
  · intro _ u s t s' _ _ ha hq hs
    have ht : t.rt.card.standbyUp = false := by cases ha <;> exact hs
    exact (congrArg (·.rt.card.standbyUp) hq :).trans ht

end Moves

/-! ## Who falls back on whom -/

def Service.fallsBackOn (s : Service) (name : Bytes) : Bool :=
  s.conf.cards.any fun c => c = .fallback name

namespace Pid1

theorem Exclusive.calm (he : e.Exclusive i j) (hne : i ≠ j)
    (h : AnyMoves (fun _ k => k.calm = true) e e') : e'.Exclusive i j :=
  h.allCalm hne he

theorem fallsBackOn_of_fallback (h : serviceFallback table i = some j) :
    (table.getD i default).fallsBackOn (table.getD j default).conf.name = true := by
  obtain ⟨c, hc, hfind⟩ := exists_of_findSome?_eq_some h
  cases c with
  | exec cmd => cases hfind
  | fallback name =>
    have hprop := find?_some hfind
    simp only [Bool.and_eq_true, decide_eq_true_eq] at hprop
    exact any_eq_true.mpr ⟨_, hc, by simpa using hprop.2.symm⟩

/-- Service `j` is the fallback of service `i` and of no other, and `i` has no other and is nobody's.
Service `i` is not bound, and both services run their main process themselves. -/
structure Pairing (i j : Nat) (e : Pid1) : Prop where
  here : i < e.count
  fallback : serviceFallback e.services i = some j
  cards : ∀ name, (e.at_ i).fallsBackOn name = true → name = (e.at_ j).conf.name
  only : ∀ q < e.count, q ≠ i → (e.at_ q).fallsBackOn (e.at_ j).conf.name = false
  leads : ∀ q < e.count, q ≠ i → (e.at_ q).fallsBackOn (e.at_ i).conf.name = false
  unbound : (e.at_ i).conf.bindName = []
  file : (e.at_ i).conf.pidFile = [] ∧ (e.at_ j).conf.pidFile = []
  main : (e.at_ i).flags.mainPidNotify = false ∧ (e.at_ j).flags.mainPidNotify = false

namespace Pairing

variable (h : e.Pairing i j)
include h

theorem there : j < e.count :=
  (serviceFallback_spec h.fallback).1

theorem ne : i ≠ j :=
  Ne.symm (serviceFallback_spec h.fallback).2.1

theorem standby : serviceIsStandby e.services j = true :=
  (serviceFallback_spec h.fallback).2.2 h.here

theorem only_fallback (hq : q < e.count) (hfb : serviceFallback e.services q = some j) : q = i := by
  by_contra hne
  have hno : (e.at_ q).fallsBackOn (e.at_ j).conf.name = false := h.only q hq hne
  exact absurd ((fallsBackOn_of_fallback hfb).symm.trans hno) (by simp)

theorem nobodys (hq : q < e.count) : serviceFallback e.services q ≠ some i := by
  intro hfb
  have hne : q ≠ i := fun heq => (serviceFallback_spec hfb).2.1 heq.symm
  have hno : (e.at_ q).fallsBackOn (e.at_ i).conf.name = false := h.leads q hq hne
  exact absurd ((fallsBackOn_of_fallback hfb).symm.trans hno) (by simp)

theorem not_standby : serviceIsStandby e.services i = false := by
  refine any_eq_false.mpr fun q hq => ?_
  rw [mem_range] at hq
  by_cases hne : q = i
  · simp [hne]
  · have hno : ((e.at_ q).conf.cards.any fun c => c = .fallback (e.at_ i).conf.name) = false := h.leads q hq hne
    have hno' : (((e.services.getD q default).conf.cards).any fun c =>
        c = .fallback (e.services.getD i default).conf.name) = false := hno
    rw [hno']
    simp

theorem congr (hcount : e'.count = e.count) (hstatic : ∀ q, (e'.at_ q).static = (e.at_ q).static) : e'.Pairing i j := by
  have hconf : ∀ q, (e'.at_ q).conf = (e.at_ q).conf := fun q => congrArg Prod.fst (hstatic q)
  have hmain : ∀ q, (e'.at_ q).flags.mainPidNotify = (e.at_ q).flags.mainPidNotify := fun q =>
    congrArg (·.2.1.mainPidNotify) (hstatic q)
  refine ⟨?_, ?_, ?_, ?_, ?_, ?_, ?_, ?_⟩
  · rw [hcount]
    exact h.here
  · rw [serviceFallback_congr hcount hconf]
    exact h.fallback
  · simp only [fallsBackOn, hconf]
    exact h.cards
  · simp only [fallsBackOn, hconf, hcount]
    exact h.only
  · simp only [fallsBackOn, hconf, hcount]
    exact h.leads
  · rw [hconf]
    exact h.unbound
  · rw [hconf, hconf]
    exact h.file
  · rw [hmain, hmain]
    exact h.main

theorem on_own {f : Loc → Loc}
    (hf : (f { svc := e.at_ i }).svc.static = (e.at_ i).static) : (e.on w i f).Pairing i j := by
  refine h.congr (count_on w i f e) fun q => ?_
  by_cases hq : i = q
  · subst hq
    rw [at_on h.here, hf]
  · rw [at_on_ne hq]

theorem mod_own (hf : (f (e.at_ i)).static = (e.at_ i).static) : (e.mod i f).Pairing i j := by
  refine h.congr (count_mod e i f) fun q => ?_
  by_cases hq : i = q
  · subst hq
    rw [mod, at_put h.here, hf]
  · rw [mod, at_put_ne hq]

theorem moves (hm : Moves W G K e e') : e'.Pairing i j :=
  h.congr hm.count hm.static

end Pairing

end Pid1

/-! ## The deck of the service -/

theorem Guarded.arcIdle (h : Guarded s x) (hk : k ≠ .hear) (ha : Arc W e i k s t) (hq : s'.core = t.core)
    (hlive : t.rt.card.fallbackLive = s.rt.card.fallbackLive) (hidle : t.serving = false) : Guarded s' x := by
  have hst : s'.rt.inst.state = t.rt.inst.state := (congrArg (·.rt.inst.state) hq :)
  have hbind := h.unbound.arc ha
  refine h.own_idle ((h.own.arc ha).congr hq) ⟨?_, ?_⟩ ((h.one.arc hk ha).congr hq) ?_ ?_
  · exact (congrArg (·.conf.bindName) hq :).trans hbind.bindName
  · exact (congrArg (·.rt.bind.held) hq :).trans hbind.held
  · exact (congrArg (·.rt.card.fallbackLive) hq :).trans hlive
  · simp only [serving, hst]
    exact hidle

theorem Guarded.tickIdle (h : Guarded (e.at_ i) x) (ha : TickArc (fun _ => True) e i (e.at_ i) t)
    (hq : s'.core = t.core)
    (hlive : t.rt.card.fallbackLive = (e.at_ i).rt.card.fallbackLive) (hidle : t.serving = false) : Guarded s' x :=
  h.arcIdle (W := fun _ _ => True) (k := .tick) (by simp) ha hq hlive hidle

namespace Pid1

theorem Exclusive.mod_own (h : e.Exclusive i j) (hi : i < e.count) (hne : i ≠ j)
    (hf : Apart (f (e.at_ i)) (e.at_ j)) : (e.mod i f).Exclusive i j := by
  refine ⟨?_, h.clear⟩
  rw [at_mod hi, at_mod_ne hne]
  exact hf

theorem Exclusive.clear_on (h : e.Exclusive i j) (w : World) (f : Loc → Loc) : (e.on w q f).Clear i j := by
  have hspawns : (e.on w q f).spawns = e.spawns := by simp [on]
  unfold Clear
  rw [hspawns]
  exact h.clear

theorem Exclusive.on_own {f : Loc → Loc} (h : e.Exclusive i j) (hi : i < e.count) (hne : i ≠ j)
    (hf : Apart (f { svc := e.at_ i }).svc (e.at_ j)) : (e.on w i f).Exclusive i j := by
  refine ⟨?_, h.clear_on w f⟩
  rw [at_on hi, at_on_ne hne]
  exact hf

theorem Exclusive.unasked (h : e.Exclusive i j) (hst : (e.at_ i).resting = false) :
    (e.at_ j).rt.card.standbyUp = false := by
  cases hup : (e.at_ j).rt.card.standbyUp with
  | false => rfl
  | true => simp [h.pair.rests hup] at hst

theorem fallbackDownOf_exclusive (hp : e.Pairing i j) (hg : Guarded (e.at_ i) (e.at_ j)) (hc : e.Clear i j) :
    (e.fallbackDownOf w i).Exclusive i j ∧ ((e.fallbackDownOf w i).at_ j).rt.card.standbyUp = false := by
  unfold fallbackDownOf
  split
  · rw [hp.fallback]
    dsimp only [fallbackDown]
    split
    next hup =>
      rw [Bool.not_eq_true'] at hup
      exact ⟨⟨hg.unasked hup, hc⟩, hup⟩
    · have hother : ∀ x' : Service, x'.Direct → x'.rt.childPid = (e.at_ j).rt.childPid → x'.rt.card.standbyUp = false →
          Apart (e.at_ i) x' := by
        intro x' hd hchild hup
        exact {
          __ := hg
          other := hd
          asked := by simp [hup]
          runs := by
            rw [hchild]
            exact hg.runs
          rests := by simp [hup] }
      have hput : ∀ f : Service → Service, (f (e.at_ j)).Direct → (f (e.at_ j)).rt.childPid = (e.at_ j).rt.childPid →
          (f (e.at_ j)).rt.card.standbyUp = false →
          (e.mod j f).Exclusive i j ∧ ((e.mod j f).at_ j).rt.card.standbyUp = false := by
        intro f hd hchild hup
        rw [at_mod hp.there]
        refine ⟨⟨?_, hc⟩, hup⟩
        rw [at_mod hp.there, at_mod_ne (Ne.symm hp.ne)]
        exact hother _ hd hchild hup
      split
      · obtain ⟨hex, hup⟩ := hput (fun s =>
          { s with rt.card.standbyUp := false, flags.noRestart := true, rt.ctlKilled := true })
          { hg.other with } rfl rfl
        have hm := stopMain_moves (W := fun _ _ => True) (G := fun _ _ => True) (K := fun _ k => k = .help ∨ k = .stop)
          (fun _ => .inl rfl) (fun _ => .inr rfl) w (e := e.mod j fun s =>
            { s with rt.card.standbyUp := false, flags.noRestart := true, rt.ctlKilled := true })
              (by simpa using hp.there)
        refine ⟨hm.calm hp.ne ?_ ?_ ?_ hex, hm.unasked ?_ hup⟩
        · rintro k (rfl | rfl) <;> rfl
        · rintro k (rfl | rfl) <;> simp
        · simp
        · rintro k (rfl | rfl) <;> simp
      · exact hput _ { hg.other with } rfl rfl
  next hlive =>
    have hup : (e.at_ j).rt.card.standbyUp = false := by
      cases hup : (e.at_ j).rt.card.standbyUp with
      | false => rfl
      | true => exact absurd (hg.asked hup) hlive
    exact ⟨⟨hg.unasked hup, hc⟩, hup⟩

section
variable (hp : e.Pairing i j) (he : e.Exclusive i j)
include hp he

theorem playCard_exclusive (hst : (e.at_ i).rt.inst.state = .newProcess) : (e.playCard w i).Exclusive i j := by
  have hidle : (e.at_ i).serving = false := by simp [serving, hst]
  have hup := he.unasked (by simp [resting, hst])
  unfold playCard
  dsimp only
  split
  · exact he
  · cases hc : (e.at_ i).conf.cards[(e.at_ i).rt.card.next]? with
    | none => exact he
    | some c =>
      have hcard : (e.at_ i).rt.card.next < (e.at_ i).conf.cards.length := (List.getElem?_eq_some_iff.mp hc).1
      cases c with
      | exec cmd =>
        refine he.mod_own hp.here hp.ne (Guarded.unasked ?_ hup)
        exact he.pair.tickIdle (.card hst hcard) rfl rfl hidle
      | fallback name =>
        have hpark : Arc (fun _ _ => True) e i .tick (e.at_ i) { e.at_ i with
            rt.card.next := (e.at_ i).rt.card.next + 1
            rt.card.fallbackLive := true
            rt.inst.state := .dormant
            rt.dormantCount := (e.at_ i).rt.dormantCount + 1 } := TickArc.cardFallback hst hcard
        have hbind := he.pair.unbound.arc hpark
        simp only [hp.fallback]
        refine ⟨?_, he.clear⟩
        rw [at_mod (by simpa using hp.here), at_mod_ne (Ne.symm hp.ne), at_mod hp.here, at_mod_ne hp.ne,
          at_mod (by simpa using hp.there), at_mod_ne hp.ne]
        exact {
          own := (he.pair.own.arc hpark).congr rfl
          unbound := { hbind with }
          one := (he.pair.one.arc (by simp) hpark).congr rfl
          other := he.pair.other.fallbackUp
          asked := fun _ => rfl
          runs := fun _ => ⟨rfl, rfl⟩
          rests := fun _ => rfl }

/-! ## Ticks -/

theorem requeue_exclusive (hst : (e.at_ i).rt.inst.state = .recovery ∨ (e.at_ i).rt.inst.state = .friction)
    (hbudget : (e.at_ i).rt.restartCount < (e.at_ i).conf.maxRestarts) (inst : Inst) :
    ((e.put i { e.at_ i with rt.inst := inst }).requeue w i).Exclusive i j := by
  have hup : (e.at_ j).rt.card.standbyUp = false := by
    refine he.unasked ?_
    rcases hst with hst | hst
    · simp [resting, hst]
    · simp [resting, hst]
  unfold requeue
  rw [mod, at_put hp.here, put_put]
  refine playCard_exclusive (hp.mod_own (f := fun _ => _) rfl) ⟨?_, he.clear⟩ ?_
  · rw [at_put hp.here, at_put_ne hp.ne]
    refine Guarded.unasked ?_ hup
    exact he.pair.tickIdle (.retry hst hbudget) rfl rfl rfl
  · rw [at_put hp.here]
    rfl

theorem tickRecovery_exclusive (hst : (e.at_ i).rt.inst.state = .recovery) : (e.tickRecovery w i).Exclusive i j := by
  obtain ⟨inst, ⟨hbudget, heq⟩ | ⟨hstate, heq⟩⟩ := tickRecovery_cases w hp.here hst
  · rw [heq]
    exact requeue_exclusive hp he (.inl hst) hbudget inst
  · rw [heq]
    refine ⟨?_, he.clear⟩
    rw [at_put hp.here, at_put_ne hp.ne]
    refine Guarded.unasked ?_ (he.unasked (by simp [resting, hst]))
    exact he.pair.tickIdle (.friction hst) (by rw [core_inst, hstate]) rfl rfl

theorem fallbackUpOf_exclusive (hst : (e.at_ i).resting = true) : (e.fallbackUpOf i).Exclusive i j := by
  unfold fallbackUpOf
  split
  next hlive =>
    simp only [hp.fallback]
    refine ⟨?_, he.clear⟩
    rw [at_mod hp.there, at_mod_ne (Ne.symm hp.ne)]
    exact {
      __ := he.pair
      other := he.pair.other.fallbackUp
      asked := fun _ => hlive
      runs := fun _ => ⟨hlive, serving_of_resting hst⟩
      rests := fun _ => hst }
  · exact he

theorem tickFriction_exclusive (hst : (e.at_ i).rt.inst.state = .friction) : (e.tickFriction w i).Exclusive i j := by
  obtain ⟨inst, ⟨hbudget, heq⟩ | ⟨hspent, hexcised, heq⟩⟩ := tickFriction_cases w hp.here hst
  · rw [heq]
    exact requeue_exclusive hp he (.inr hst) hbudget inst
  · rw [heq]
    have hup := he.unasked (by simp [resting, hst])
    have htree : Guarded (killTree { svc := e.at_ i }).svc (e.at_ j) :=
      he.pair.arcIdle (W := fun _ _ => True) (e := e) (i := i) (k := .help)
        (by simp) .tree rfl rfl (by simp [serving, hst])
    have hcore : core { (killTree { svc := e.at_ i }).svc with rt.inst := inst } =
        core { (killTree { svc := e.at_ i }).svc with rt.inst.state := .excised } := by
      rw [core_inst, hexcised]
    obtain ⟨t, htick, hq, -, -⟩ := frictionVerdict_arc (W := fun _ _ => True) w
      (s := (killTree { svc := e.at_ i }).svc) hst hspent hcore
    have ha : Arc (fun _ _ => True) e i .tick (killTree { svc := e.at_ i }).svc t := htick
    generalize hv : frictionVerdict w { (killTree { svc := e.at_ i }).svc with rt.inst := inst } = v at hq
    have hrest : v.resting = true ∧ v.rt.card.fallbackLive = (e.at_ i).rt.card.fallbackLive := by
      rw [← hv]
      unfold frictionVerdict
      split
      · exact ⟨by simp [resting, hexcised], rfl⟩
      · exact ⟨rfl, rfl⟩
    have hstate : t.rt.inst.state = v.rt.inst.state := (congrArg (·.rt.inst.state) hq.symm :)
    have hlive : t.rt.card.fallbackLive = v.rt.card.fallbackLive :=
      (congrArg (·.rt.card.fallbackLive) hq.symm :)
    have hidle : t.serving = false := by
      simp only [serving, hstate]
      exact serving_of_resting hrest.1
    have hverdict : Guarded v (e.at_ j) :=
      htree.arcIdle (by simp) ha hq (hlive.trans hrest.2) hidle
    have hstatic : v.static = (e.at_ i).static := (congrArg static hq :).trans ha.static
    have hapart := hverdict.unasked hup
    rw [← hv] at hstatic hapart hrest
    refine fallbackUpOf_exclusive (hp.on_own hstatic) (he.on_own hp.here hp.ne hapart) ?_
    rw [at_on hp.here]
    exact hrest.1

theorem tickDormant_exclusive (hst : (e.at_ i).rt.inst.state = .dormant) : (e.tickDormant w i).Exclusive i j := by
  unfold tickDormant
  split
  · -- awake, with the fallback still asked for
    generalize hwoken : (e.mod i fun s => { s with
      rt.inst.state := .newProcess, rt.restartCount := s.rt.restartCount + 1 }) = u
    have hpair : u.Pairing i j := hwoken ▸ hp.mod_own rfl
    have hguard : Guarded (u.at_ i) (u.at_ j) := by
      rw [← hwoken, at_mod hp.here, at_mod_ne hp.ne]
      exact he.pair.tickIdle (.wakeUp hst) rfl rfl rfl
    have hclear : u.Clear i j := hwoken ▸ he.clear
    obtain ⟨hdown, -⟩ := fallbackDownOf_exclusive hpair hguard hclear
    refine playCard_exclusive ?_ hdown ?_
    · exact hpair.moves (fallbackDownOf_moves (W := fun _ _ => True) (G := fun _ _ => True) (K := fun _ _ => True)
        (fun _ => trivial) (fun _ => trivial) (fun _ _ => trivial) w)
    · rw [fallbackDownOf_state, ← hwoken, at_mod hp.here]
  · exact he

theorem tickNewProcess_exclusive
    (hst : (e.at_ i).rt.inst.state = .newProcess) : (e.tickNewProcess w groups i).Exclusive i j := by
  by_cases hchild : (e.at_ j).rt.childPid = 0
  · have hoff : (e.at_ j).Off := ⟨hchild, he.unasked (by simp [resting, hst])⟩
    have hm : AnyMoves
        (fun q k => k = .help ∨ (q = i ∧ (k = .op ∨ k = .tick ∨ k = .spawn))) e (e.tickNewProcess w groups i) :=
      tickNewProcess_moves (fun _ => .inl rfl) (.inr ⟨rfl, .inl rfl⟩) (.inr ⟨rfl, .inr (.inl rfl)⟩)
        (.inr ⟨rfl, .inr (.inr rfl)⟩) w hp.here hst fun _ _ => trivial
    refine (hm.beside hp.ne ?_ ?_ he hoff).1
    · rintro k (rfl | ⟨-, rfl | rfl | rfl⟩) <;> simp [Kind.calm]
    · rintro k (rfl | ⟨hj, -⟩)
      · simp
      · exact absurd hj.symm hp.ne
  · have hruns : e.fallbackRuns i = true := by
      simp only [fallbackRuns, hp.fallback, decide_eq_true_eq]
      omega
    have hlive := (he.pair.runs hchild).1
    have hsame : e.tickNewProcess w groups i = e := by
      simp [tickNewProcess, hp.not_standby, hlive, hruns]
    rw [hsame]
    exact he

theorem tickPerfect_exclusive (hst : (e.at_ i).rt.inst.state = .perfect) :
    (if (e.at_ i).flags.timer && (e.at_ i).timerDue w then e.mod i fun s => { s with rt.inst.state := .newProcess }
      else e).Exclusive i j := by
  split
  next hdue =>
    refine he.mod_own hp.here hp.ne (Guarded.unasked ?_ (he.unasked (by simp [resting, hst])))
    exact he.pair.tickIdle (.timerFire hst (Bool.and_eq_true_iff.mp hdue).1) rfl rfl rfl
  · exact he

theorem tickServing_exclusive (hst : (e.at_ i).rt.inst.state = .fullTrust ∨ (e.at_ i).rt.inst.state = .fundamental) :
    (e.tickState w groups i).Exclusive i j := by
  have hserving : (e.at_ i).serving = true := by simpa [serving] using hst
  have hplain : (e.at_ i).rt.inst.state.plain = true := by
    rcases hst with hst | hst <;> rw [hst] <;> rfl
  have hnew : (e.at_ i).rt.inst.state ≠ .newProcess := by
    rcases hst with hst | hst <;> simp [hst]
  have hm : AnyMoves (fun q k => k = .help ∨ (q = i ∧ (k = .op ∨ k = .tick))) e (e.tickState w groups i) :=
    tickPlain_moves (fun _ => .inl rfl) (.inr ⟨rfl, .inl rfl⟩) (.inr ⟨rfl, .inr rfl⟩) hp.here hplain
      (fun h => absurd h hnew) (fun _ => trivial) fun _ _ => trivial
  refine (hm.beside hp.ne ?_ ?_ he (he.pair.off_of_serving hserving)).1
  · rintro k (rfl | ⟨-, rfl | rfl⟩) <;> simp [Kind.calm]
  · rintro k (rfl | ⟨hj, -⟩)
    · simp
    · exact absurd hj.symm hp.ne

theorem tickState_exclusive : (e.tickState w groups i).Exclusive i j := by
  by_cases hserving : (e.at_ i).rt.inst.state = .fullTrust ∨ (e.at_ i).rt.inst.state = .fundamental
  · exact tickServing_exclusive hp he hserving
  · unfold tickState
    dsimp only
    cases hst : (e.at_ i).rt.inst.state with
    | newProcess => exact tickNewProcess_exclusive hp he hst
    | fullTrust => exact absurd (.inl hst) hserving
    | fundamental => exact absurd (.inr hst) hserving
    | recovery => exact tickRecovery_exclusive hp he hst
    | friction => exact tickFriction_exclusive hp he hst
    | dormant => exact tickDormant_exclusive hp he hst
    | perfect => exact tickPerfect_exclusive hp he hst
    | excised => exact he
    | settled => exact he

theorem tickFuse_exclusive : (e.on w i tickFuse).Exclusive i j := by
  refine he.on_own hp.here hp.ne ?_
  have h := he.pair
  have hexcised : ∀ s : Service, s.Direct → s.Unbound → s.OneChild → s.rt.inst.state = .excised →
      s.rt.card.fallbackLive = (e.at_ i).rt.card.fallbackLive → Apart s (e.at_ j) := by
    intro s hown hbind hone hst hlive
    have hrest : s.resting = true := by simp [resting, hst]
    exact { h.own_idle hown hbind hone hlive (serving_of_resting hrest) with rests := fun _ => hrest }
  unfold tickFuse
  dsimp only
  split
  · exact hexcised _ { h.own with } { h.unbound with } (h.one.idle rfl rfl id) rfl rfl
  next hchild =>
    exact hexcised _ { h.own with } { h.unbound with } (h.one.idle (Nat.eq_zero_of_not_pos hchild) rfl id) rfl rfl

omit hp he in
theorem static_tickFuse (l : Loc) : l.tickFuse.svc.static = l.svc.static := by
  unfold tickFuse
  dsimp only
  split
  · rfl
  · rfl

theorem tickService_own : (e.tickService w groups i).Exclusive i j := by
  unfold tickService
  split
  · exact tickState_exclusive (hp.on_own (static_tickFuse _)) (tickFuse_exclusive hp he)
  · exact tickState_exclusive hp he

/-- What the tick, or a command, of service `q` moves: the fallback is that of `q`. -/
def deckKinds (e : Pid1) (q : Nat) (own : Kind → Prop) (r : Nat) (k : Kind) : Prop :=
  k = .help ∨ k = .stop ∨ (k = .other ∧ serviceFallback e.services q = some r) ∨ (r = q ∧ own k)

omit he in
theorem Pairing.deckKinds_own (hq : q < e.count) (hne : q ≠ i) (hk : e.deckKinds q own i k) : k.calm = true := by
  rcases hk with rfl | rfl | ⟨rfl, hfb⟩ | ⟨heq, -⟩
  · rfl
  · rfl
  · exact absurd hfb (hp.nobodys hq)
  · exact absurd heq.symm hne

omit he in
theorem Pairing.deckKinds_other (hq : q < e.count) (hne : q ≠ i)
    (hk : e.deckKinds q own j k) : k = .help ∨ k = .stop ∨ (j = q ∧ own k) := by
  rcases hk with rfl | rfl | ⟨rfl, hfb⟩ | hown
  · exact .inl rfl
  · exact .inr (.inl rfl)
  · exact absurd (hp.only_fallback hq hfb) hne
  · exact .inr (.inr hown)

theorem tickService_else (hq : q < e.count) (hne : q ≠ i) : (e.tickService w groups q).Exclusive i j := by
  have hm : Moves (fun _ _ => True) (fun u r => r = j → (u.at_ j).rt.card.standbyUp = true)
      (e.deckKinds q fun k => k = .op ∨ k = .tick ∨ k = .spawn) e (e.tickService w groups q) := by
    refine tickService_moves (fun _ => .inl rfl) (fun _ => .inr (.inl rfl)) (fun r hr => .inr (.inr (.inl ⟨rfl, hr⟩)))
      (.inr (.inr (.inr ⟨rfl, .inl rfl⟩))) (.inr (.inr (.inr ⟨rfl, .inr (.inl rfl)⟩)))
      (.inr (.inr (.inr ⟨rfl, .inr (.inr rfl)⟩))) trivial hq ?_
    rintro u hu - hmay rfl
    refine hmay.standby.resolve_right ?_
    rw [(hp.moves hu).standby]
    simp
  refine hm.calm hp.ne (fun k hk => hp.deckKinds_own hq hne hk) ?_ (fun u _ hg _ => hg rfl) he
  intro k hk
  rcases hp.deckKinds_other hq hne hk with rfl | rfl | ⟨-, rfl | rfl | rfl⟩ <;> simp

theorem tickService_exclusive (hq : q < e.count) : (e.tickService w groups q).Exclusive i j := by
  by_cases hne : q = i
  · subst hne
    exact tickService_own hp he
  · exact tickService_else hp he hq hne

/-! ## A pass -/

theorem readyRecheck_exclusive (hq : q < e.count) : (e.on w q (readyRecheck w q)).Exclusive i j := by
  have hm : AnyMoves (fun r k => r = q ∧ (k = .help ∨ k = .op ∨ k = .tick)) e (e.on w q (readyRecheck w q)) :=
    Moves.refl.work w hq fun u _ =>
      readyRecheck_work ⟨rfl, .inl rfl⟩ ⟨rfl, .inr (.inl rfl)⟩ ⟨rfl, .inr (.inr rfl)⟩ trivial q
  by_cases hne : q = i
  · subst hne
    cases hlive : (e.at_ q).readyLive with
    | true =>
      have hserving : (e.at_ q).serving = true := by
        simp only [readyLive, Bool.and_eq_true, decide_eq_true_eq] at hlive
        simp [serving, hlive.1.1.1.1]
      refine (hm.beside hp.ne ?_ ?_ he (he.pair.off_of_serving hserving)).1
      · rintro k ⟨-, rfl | rfl | rfl⟩ <;> simp [Kind.calm]
      · rintro k ⟨hj, -⟩
        exact absurd hj.symm hp.ne
    | false =>
      have hsame : readyRecheck w q { svc := e.at_ q } = { svc := e.at_ q } := by
        simp [readyRecheck, hlive]
      refine he.on_own hp.here hp.ne ?_
      rw [hsame]
      exact he.pair
  · refine hm.calm hp.ne ?_ ?_ ?_ he
    · rintro k ⟨hi, -⟩
      exact absurd hi.symm hne
    · rintro k ⟨-, rfl | rfl | rfl⟩ <;> simp
    · rintro u - - ⟨-, hk⟩
      simp at hk

theorem exclusive_loop {F : Pid1 → Nat → Pid1} (hn : n ≤ e.count)
    (hm : ∀ u q, q < u.count → AnyMoves (fun _ _ => True) u (F u q))
    (hF : ∀ u q, u.Pairing i j → u.Exclusive i j → q < u.count → (F u q).Exclusive i j) :
    ((List.range n).foldl F e).Pairing i j ∧ ((List.range n).foldl F e).Exclusive i j := by
  have hall := Run.foldl_range (I := fun _ (u : Pid1) => u.count = e.count ∧ u.Pairing i j ∧ u.Exclusive i j)
    (F := F) (n := n) ⟨rfl, hp, he⟩ ?_
  · exact hall.2
  · rintro q u hq ⟨hcount, hpu, heu⟩
    have hlt : q < u.count := by omega
    have hmq := hm u q hlt
    exact ⟨hmq.count.trans hcount, hpu.moves hmq, hF u q hpu heu hlt⟩

omit hp he in
theorem Exclusive.rest (h : e.Exclusive i j) (hr : SameRest e e') : e'.Exclusive i j := by
  have hspawns : e'.spawns = e.spawns := by
    rw [spawns, hr.trace]
    rfl
  constructor
  · simp only [at_, hr.services]
    exact h.pair
  · unfold Clear
    rw [hspawns]
    exact h.clear

theorem passRecheck_exclusive (p : Pass) : (e.passRecheck p).Exclusive i j := by
  unfold passRecheck
  split
  · refine (exclusive_loop (e := { e with readyEventDue := 0, readyBackstopDue := p.nowMs + readyBackstopMs })
      (hp.congr rfl fun _ => rfl) (he.rest ⟨rfl, rfl, rfl, rfl, rfl, rfl⟩) (le_refl _) (fun u q hq => ?_)
      fun u q hpu heu hq => readyRecheck_exclusive hpu heu hq).2
    exact Moves.refl.work _ hq fun v _ => readyRecheck_work trivial trivial trivial trivial q
  · exact he

theorem passStart_exclusive (p : Pass) : (e.passStart p).Exclusive i j := by
  have hpressure : AnyMoves _ e _ :=
    loopPressure_moves (K := fun _ k => k.calm = true) (fun _ => rfl) p.w p.nowMs p.stalled e
  have hrecheck := passRecheck_exclusive (hp.moves hpressure) (he.calm hp.ne hpressure) p
  have hcatchup := hrecheck.calm hp.ne
    (timerCatchupTick_moves (K := fun _ k => k.calm = true) (fun _ => rfl) p.catchup _)
  exact hcatchup.calm hp.ne (bindTick_moves (K := fun _ k => k.calm = true) (fun _ => rfl) (fun _ => rfl)
    (fun _ => rfl) p.w _)

theorem pass_exclusive (p : Pass) : (e.pass p).Exclusive i j := by
  obtain ⟨states, heq⟩ := pass_eq p e
  have hstart := passStart_moves p e
  obtain ⟨-, hticks⟩ := exclusive_loop
    (hp.moves hstart) (passStart_exclusive hp he p) hstart.count.symm.le
    (fun u q hq => tickService_moves (fun _ => trivial) (fun _ => trivial)
      (fun _ _ => trivial) trivial trivial trivial trivial hq
      fun _ _ _ _ => trivial)
    fun u q hpu heu hq => tickService_exclusive hpu heu hq
  rw [heq]
  exact hticks.calm hp.ne (passTail_moves (K := fun _ k => k.calm = true) (fun _ => rfl) (fun _ => rfl)
    (fun _ => rfl) (fun _ => trivial) states _)

/-! ## Commands -/

omit he in
theorem ctlRearm_exclusive (start : Bool) (hg : Guarded (e.at_ i) (e.at_ j)) (hc : e.Clear i j) :
    (e.ctlRearm w i start).Pairing i j ∧ (e.ctlRearm w i start).Exclusive i j ∧
      ((e.ctlRearm w i start).at_ j).rt.card.standbyUp = false := by
  refine ⟨hp.moves (ctlRearm_moves (W := fun _ _ => True) (G := fun _ _ => True)
    (K := fun _ _ => True) (fun _ => trivial)
    (fun _ => trivial) (fun _ _ => trivial) trivial w start), ?_⟩
  refine fallbackDownOf_exclusive (hp.mod_own rfl) ?_ hc
  rw [at_mod hp.here, at_mod_ne hp.ne]
  exact {
    own := { hg.own with }
    unbound := ⟨hg.unbound.bindName, rfl⟩
    one := { hg.one with }
    __ := hg
    runs := hg.runs }

theorem rearmed_exclusive (start : Bool) (hk : k ≠ .hear)
    (ha : Arc (fun _ _ => True) e i k (e.at_ i) t) (hq : (f (e.at_ i)).core = t.core)
    (hlive : t.rt.card.fallbackLive = (e.at_ i).rt.card.fallbackLive) (hidle : t.serving = false) :
    ((e.mod i f).ctlRearm w i start).Exclusive i j := by
  have hpair : (e.mod i f).Pairing i j := hp.mod_own ((congrArg static hq :).trans ha.static)
  refine (ctlRearm_exclusive hpair start ?_ he.clear).2.1
  rw [at_mod hp.here, at_mod_ne hp.ne]
  exact he.pair.arcIdle hk ha hq hlive hidle

theorem ctlStart_exclusive : (e.ctlStart w i).1.Exclusive i j := by
  unfold ctlStart
  dsimp only
  split
  next hst =>
    simp only [Bool.or_eq_true, decide_eq_true_eq] at hst
    exact rearmed_exclusive (k := .ctl) hp he true (by simp) (.start hst) rfl rfl rfl
  · split
    · exact (ctlRearm_exclusive hp true he.pair.toGuarded he.clear).2.1
    · exact he

theorem ctlStop_exclusive (hq : q < e.count) : (e.ctlStop w q).1.Exclusive i j :=
  he.calm hp.ne (ctlStop_moves (K := fun _ k => k.calm = true) (fun _ => rfl) (fun _ => rfl) rfl rfl w hq)

omit hp he in
theorem ctlWaitAbort_direct {l : Loc} (h : l.svc.Direct) : l.ctlWaitAbort w i = l := by
  simp [ctlWaitAbort, h.fork, h.wait]

theorem ctlRestart_exclusive : (e.ctlRestart w i).1.Exclusive i j := by
  unfold ctlRestart
  dsimp only
  generalize hopen : (e.mod i fun s => { s.restartPolicyRestore with rt.listen.hold := false }) = u
  have hpu : u.Pairing i j := hopen ▸ hp.mod_own rfl
  have heu : u.Exclusive i j := hopen ▸ he.mod_own hp.here hp.ne (he.pair.congr rfl rfl)
  split
  · refine Exclusive.calm ?_ hp.ne
      (stopMain_moves (K := fun _ k => k.calm = true) (fun _ => rfl) (fun _ => rfl) w (by simpa using hpu.here))
    exact heu.mod_own hpu.here hpu.ne (heu.pair.congr rfl rfl)
  next hchild =>
    have hnone : (u.at_ i).rt.childPid = 0 := Nat.eq_zero_of_not_pos hchild
    have habort := ctlWaitAbort_direct (w := w) (i := i) (l := { svc := u.at_ i }) heu.pair.own
    have hguard : Guarded { u.at_ i with rt.inst.state := .newProcess, rt.restartCount := 0 } (u.at_ j) :=
      heu.pair.own_idle { heu.pair.own with } { heu.pair.unbound with } (heu.pair.one.idle hnone rfl id) rfl rfl
    refine (ctlRearm_exclusive (hpu.on_own ?_) true ?_ (heu.clear_on w _)).2.1
    · rw [habort]
      rfl
    · rw [at_on hpu.here, at_on_ne hpu.ne, habort]
      exact hguard

theorem ctlReset_exclusive : (e.ctlReset w i).1.Exclusive i j := by
  have hzero : (e.mod i fun s => { s with rt.restartCount := 0, rt.dormantCount := 0 }).Exclusive i j :=
    he.mod_own hp.here hp.ne (he.pair.congr rfl rfl)
  have hpzero : (e.mod i fun s => { s with rt.restartCount := 0, rt.dormantCount := 0 }).Pairing i j := hp.mod_own rfl
  obtain ⟨hparmed, harmed, hup⟩ := ctlRearm_exclusive hpzero false hzero.pair.toGuarded hzero.clear
  unfold ctlReset
  dsimp only
  generalize ctlRearm w i false (e.mod i fun s =>
    { s with rt.restartCount := 0, rt.dormantCount := 0 }) = u at harmed hup hparmed
  have hpolicy : (u.mod i restartPolicyRestore).Exclusive i j :=
    harmed.mod_own hparmed.here hparmed.ne (harmed.pair.congr rfl rfl)
  have hppolicy : (u.mod i restartPolicyRestore).Pairing i j := hparmed.mod_own rfl
  split
  next hst =>
    simp only [Bool.or_eq_true, decide_eq_true_eq, or_assoc] at hst
    dsimp only
    refine hpolicy.mod_own hppolicy.here hppolicy.ne (Guarded.unasked ?_ ?_)
    · exact hpolicy.pair.arcIdle (W := fun _ _ => True) (e := u) (i := i) (k := .ctl) (by simp) (.queue hst) rfl rfl rfl
    · rw [at_mod_ne hparmed.ne]
      exact hup
  · exact hpolicy

theorem resetOne_own : (e.resetOne w i).Exclusive i j := by
  have hzero : (e.mod i fun s =>
      breakerClear { s with rt.restartCount := 0, rt.dormantCount := 0, rt.card.next := 0 }).Exclusive i j :=
    he.mod_own hp.here hp.ne (he.pair.congr rfl rfl)
  have hpzero : (e.mod i fun s =>
      breakerClear { s with rt.restartCount := 0, rt.dormantCount := 0, rt.card.next := 0 }).Pairing i j := hp.mod_own rfl
  obtain ⟨hparmed, harmed, hup⟩ := ctlRearm_exclusive hpzero false hzero.pair.toGuarded hzero.clear
  have hstate := ctlRearm_state w false hpzero.here
  rw [at_mod hp.here] at hstate
  unfold resetOne
  dsimp only
  split
  next hfailed =>
    have hresting : (e.at_ i).resting = true := by
      unfold failed at hfailed
      split at hfailed
      · cases hfailed
      · simp only [Bool.or_eq_true, Bool.and_eq_true, decide_eq_true_eq] at hfailed
        rcases hfailed with hst | hst
        · simp [resting, hst]
        · simp [resting, hst.1.1]
    generalize ctlRearm w i false _ = u at harmed hup hparmed hstate ⊢
    have hidle : (u.at_ i).serving = false := by
      simp only [serving, hstate]
      exact serving_of_resting hresting
    have hchild : (u.at_ i).rt.childPid = 0 := by
      by_contra hne
      simp [harmed.pair.one.serving hne] at hidle
    have h := harmed.pair
    refine harmed.mod_own hparmed.here hparmed.ne (Guarded.unasked (h.own_idle ?_ ?_ ?_ ?_ ?_) hup)
    · exact { h.own with }
    · exact { h.unbound with }
    · exact h.one.idle hchild rfl id
    · rfl
    · rfl
  · split
    · exact hzero.mod_own hpzero.here hpzero.ne (hzero.pair.congr rfl rfl)
    · exact hzero

omit hp he in
theorem Exclusive.mod_other (h : e.Exclusive i j) (hj : j < e.count) (hne : i ≠ j)
    (hf : Apart (e.at_ i) (f (e.at_ j))) : (e.mod j f).Exclusive i j := by
  refine ⟨?_, h.clear⟩
  rw [at_mod hj, at_mod_ne (Ne.symm hne)]
  exact hf

theorem deck_exclusive (hq : q < e.count) (hi : q ≠ i) (hown : j = q → ∀ k, own k → k.calm = true)
    (hm : Moves (fun _ _ => True) G (e.deckKinds q own) e e') : e'.Exclusive i j := by
  have hcalm : ∀ k, e.deckKinds q own j k → k.calm = true := by
    intro k hk
    rcases hp.deckKinds_other hq hi hk with rfl | rfl | ⟨hj, hk⟩
    · rfl
    · rfl
    · exact hown hj k hk
  refine hm.calm hp.ne (fun k hk => hp.deckKinds_own hq hi hk) (fun k hk => ⟨?_, ?_⟩) (fun _ _ _ hk => ?_) he
  · rintro rfl
    cases hcalm _ hk
  · rintro rfl
    cases hcalm _ hk
  · cases hcalm _ hk

theorem resetOne_fallback : (e.resetOne w j).Exclusive i j := by
  generalize hzero : (e.mod j fun s =>
    breakerClear { s with rt.restartCount := 0, rt.dormantCount := 0, rt.card.next := 0 }) = z
  have hmz : AnyMoves (fun _ _ => True) e z :=
    hzero ▸ .arc .refl trivial (k := .ctl) trivial (fun _ => .resetAll) rfl
  have hpz := hp.moves hmz
  have hez : z.Exclusive i j := hzero ▸ he.mod_other hp.there hp.ne (he.pair.congr rfl rfl)
  unfold resetOne
  dsimp only
  rw [hzero]
  split
  · unfold ctlRearm
    generalize harm : (z.mod j fun s =>
      let s := breakerClear { s with rt.card.next := 0 }
      { s with
        rt.exciseReason := .none
        rt.bind.held := false
        rt.restartAt := .zero
        rt.card.standbyUp := s.rt.card.standbyUp || (false && serviceIsStandby z.services j) }) = a
    have hma : AnyMoves (fun _ _ => True) z a :=
      harm ▸ .arc .refl trivial (k := .ctl) trivial (fun _ => .rearm false (by simp)) rfl
    have hpa := hpz.moves hma
    have hea : a.Exclusive i j := by
      rw [← harm]
      refine hez.mod_other hpz.there hpz.ne (hez.pair.congr_other ?_ rfl ?_)
      · exact { hez.pair.other with }
      · exact Bool.or_false _
    have hmd : AnyMoves (a.deckKinds j fun _ => False) a (fallbackDownOf w j a) :=
      fallbackDownOf_moves (fun _ => .inl rfl) (fun _ => .inr (.inl rfl)) (fun r hr => .inr (.inr (.inl ⟨rfl, hr⟩))) w
    have hed := deck_exclusive hpa hea hpa.there (Ne.symm hpa.ne) (fun _ _ hk => hk.elim) hmd
    have hpd := hpa.moves hmd
    refine hed.mod_other hpd.there hpd.ne (hed.pair.congr_other ?_ rfl rfl)
    exact { hed.pair.other with }
  · split
    · exact hez.mod_other hpz.there hpz.ne (hez.pair.congr rfl rfl)
    · exact hez

theorem resetOne_exclusive (hq : q < e.count) : (e.resetOne w q).Exclusive i j := by
  by_cases hi : q = i
  · subst hi
    exact resetOne_own hp he
  · by_cases hj : q = j
    · subst hj
      exact resetOne_fallback hp he
    · have hm : AnyMoves (e.deckKinds q fun k => k = .ctl) e (e.resetOne w q) :=
        resetOne_moves (fun _ => .inl rfl) (fun _ => .inr (.inl rfl)) (fun r hr => .inr (.inr (.inl ⟨rfl, hr⟩)))
          (.inr (.inr (.inr ⟨rfl, rfl⟩))) w hq
      exact deck_exclusive hp he hq hi (fun h => absurd h.symm hj) hm

theorem ctlCmd_exclusive (ws : Nat → World) (c : Cmd) (htable : (Input.ctl w ws c).keepsTable = true)
    (htarget : c.target ≠ some (e.at_ j).conf.name) :
    (e.ctlCmd w ws c).1.Exclusive i j := by
  have hnamed : ∀ (name : Bytes) (f : Nat → Pid1 → Pid1 × Bytes),
      (∀ q, e.find name = some q → (f q e).1.Exclusive i j) → (named name f e).1.Exclusive i j := by
    intro name f hf
    unfold named
    cases hfind : e.find name with
    | none => exact he
    | some q => exact hf q hfind
  -- the service of the command is not the fallback
  have hnot : ∀ name q, c.target = some name → e.find name = some q → j ≠ q := by
    rintro name q hname hfind rfl
    exact htarget (hname.trans (congrArg some (find_name hfind).symm))
  have helse : ∀ {e' : Pid1} {q : Nat}, q < e.count → q ≠ i → j ≠ q →
      AnyMoves (e.deckKinds q fun k => k = .op ∨ k = .ctl) e e' → e'.Exclusive i j :=
    fun hq hi hj hm => deck_exclusive hp he hq hi (fun h => absurd h hj) hm
  have hhelp : ∀ q r, e.deckKinds q (fun k => k = .op ∨ k = .ctl) r .help := fun _ _ => .inl rfl
  have hstop : ∀ q r, e.deckKinds q (fun k => k = .op ∨ k = .ctl) r .stop := fun _ _ => .inr (.inl rfl)
  have hother : ∀ q r, serviceFallback e.services q = some r → e.deckKinds q (fun k => k = .op ∨ k = .ctl) r .other :=
    fun _ _ hr => .inr (.inr (.inl ⟨rfl, hr⟩))
  have hop : ∀ q, e.deckKinds q (fun k => k = .op ∨ k = .ctl) q .op := fun _ => .inr (.inr (.inr ⟨rfl, .inl rfl⟩))
  have hctl : ∀ q, e.deckKinds q (fun k => k = .op ∨ k = .ctl) q .ctl := fun _ => .inr (.inr (.inr ⟨rfl, .inr rfl⟩))
  cases c with
  | start name =>
    refine hnamed name _ fun q hq => ?_
    by_cases hi : q = i
    · subst hi
      exact ctlStart_exclusive hp he
    · exact helse (find_lt hq) hi (hnot name q rfl hq) (ctlStart_moves (hhelp q) (hstop q) (hother q) (hctl q) w)
  | stop name => exact hnamed name _ fun q hq => ctlStop_exclusive hp he (find_lt hq)
  | restart name =>
    refine hnamed name _ fun q hq => ?_
    by_cases hi : q = i
    · subst hi
      exact ctlRestart_exclusive hp he
    · exact helse (find_lt hq) hi (hnot name q rfl hq)
        (ctlRestart_moves (hhelp q) (hstop q) (hother q) (hctl q) (hop q) w (find_lt hq))
  | reset name =>
    refine hnamed name _ fun q hq => ?_
    by_cases hi : q = i
    · subst hi
      exact ctlReset_exclusive hp he
    · exact helse (find_lt hq) hi (hnot name q rfl hq) (ctlReset_moves (hhelp q) (hstop q) (hother q) (hctl q) w)
  | resetAll =>
    rw [ctlCmd, ctlResetAll_fst]
    refine (exclusive_loop hp he (le_refl _) (fun u q hq => ?_) fun u q hpu heu hq => resetOne_exclusive hpu heu hq).2
    exact resetOne_moves (fun _ => trivial) (fun _ => trivial) (fun _ _ => trivial) trivial w hq
  | add path file => cases htable
  | reload evict c => cases htable
  | pet name =>
    refine hnamed name _ fun q hq => ?_
    have hm : AnyMoves (fun _ k => k.calm = true) e
        (e.mod q fun s => { s with rt.watchdog.lastPet := w.now }) := .quiet .refl rfl rfl
    exact hm.allCalm hp.ne he

end

end Pid1

/-! ## Adding a service -/

theorem serviceFallback_single (name : Bytes) (hname : ∀ n, (table.getD i default).fallsBackOn n = true → n = name) :
    serviceFallback table i = if (table.getD i default).fallsBackOn name then
        (List.range table.length).find? fun j => j ≠ i && (table.getD j default).conf.name = name
      else none := by
  unfold serviceFallback
  unfold fallsBackOn at hname ⊢
  generalize (table.getD i default).conf.cards = cards at hname ⊢
  induction cards with
  | nil => rfl
  | cons c cards ih =>
    have hrest := ih fun n hn => hname n (by simp [hn])
    cases c with
    | exec cmd => simpa using hrest
    | fallback n =>
      obtain rfl : n = name := hname n (by simp)
      simp only [findSome?_cons, any_cons, decide_true, Bool.true_or, if_true]
      cases hfind : (List.range table.length).find? fun j => j ≠ i && (table.getD j default).conf.name = n with
      | some j => rfl
      | none =>
        rw [hfind] at hrest
        simpa using hrest

namespace Pid1

theorem ctlAdd_conf (w : World) (path : Bytes) (file : Option SvcFile) (e : Pid1) :
    e.count ≤ (e.ctlAdd w path file).1.count ∧
      (∀ k < e.count, ∃ d g, (e.ctlAdd w path file).1.at_ k = { e.at_ k with depIdx := d, grpDepIdx := g }) ∧
      ∀ k < (e.ctlAdd w path file).1.count, e.count ≤ k →
        ∃ s, file.bind svcFinalize = some s ∧ ((e.ctlAdd w path file).1.at_ k).conf = s.conf := by
  have hcount : e.count ≤ (e.ctlAdd w path file).1.count := by
    have hlen : ∀ u : Pid1, u.count = (svcNames u.services).length := fun u => by simp [count, svcNames]
    rw [hlen, hlen]
    rcases svcNames_ctlAdd w path file e with heq | ⟨name, -, heq⟩
    · rw [heq]
    · rw [heq, List.length_append]
      exact Nat.le_add_right _ _
  refine ⟨hcount, fun k hk => ?_, fun k hk hle => ?_⟩
  · rcases ctlAdd_getElem (getElem?_at (lt_of_lt_of_le hk hcount)) with ⟨s, hs, d, g, heq⟩ | ⟨hk', -⟩
    · rw [at_eq hs]
      exact ⟨d, g, heq⟩
    · omega
  · rcases ctlAdd_getElem (getElem?_at hk) with ⟨s, hs, -⟩ | ⟨-, s, -, -, ⟨s0, hs0, hconf⟩, heq⟩
    · exact absurd (List.getElem?_eq_some_iff.mp hs).1 (by simpa [count] using hle)
    · refine ⟨s0, hs0, ?_⟩
      rw [heq, ← hconf]
      split
      · exact s.conf_timerArm w
      · rfl

/-- The file is about neither of the pair: its service falls back on neither. -/
def SparesPair (i j : Nat) (e : Pid1) (file : Option SvcFile) : Prop :=
  ∀ s, file.bind svcFinalize = some s →
    s.fallsBackOn (e.at_ i).conf.name = false ∧ s.fallsBackOn (e.at_ j).conf.name = false

theorem Pairing.add {file : Option SvcFile} (h : e.Pairing i j) (hfile : e.SparesPair i j file)
    (w : World) (path : Bytes) :
    (e.ctlAdd w path file).1.Pairing i j := by
  obtain ⟨hcount, hold, hnew⟩ := ctlAdd_conf w path file e
  generalize (e.ctlAdd w path file).1 = e' at hcount hold hnew
  have hconf : ∀ k < e.count, (e'.at_ k).conf = (e.at_ k).conf := by
    intro k hk
    obtain ⟨d, g, heq⟩ := hold k hk
    rw [heq]
  have hmain : ∀ k < e.count, (e'.at_ k).flags.mainPidNotify = (e.at_ k).flags.mainPidNotify := by
    intro k hk
    obtain ⟨d, g, heq⟩ := hold k hk
    rw [heq]
  have hi := hconf i h.here
  have hj := hconf j h.there
  have hcards : ∀ name, (e'.at_ i).fallsBackOn name = true → name = (e.at_ j).conf.name := by
    simp only [fallsBackOn, hi]
    exact h.cards
  refine ⟨lt_of_lt_of_le h.here hcount, ?_, ?_, ?_, ?_, ?_, ?_, ?_⟩
  · -- the first service of the name is found among the old ones
    have hfb := h.fallback
    rw [serviceFallback_single (e.at_ j).conf.name h.cards] at hfb
    rw [serviceFallback_single (e.at_ j).conf.name hcards]
    split at hfb
    next hhas =>
      have hhas' : (e'.at_ i).fallsBackOn (e.at_ j).conf.name = true := by
        simp only [fallsBackOn, hi]
        exact hhas
      have hname : ∀ q < e.count, (e'.services.getD q default).conf.name = (e.services.getD q default).conf.name :=
        fun q hq => congrArg Conf.name (hconf q hq)
      refine (if_pos hhas').trans ?_
      rw [find?_range_eq_some] at hfb ⊢
      obtain ⟨hprop, hlt, hfirst⟩ := hfb
      rw [mem_range] at hlt
      refine ⟨?_, mem_range.mpr (lt_of_lt_of_le hlt hcount), fun q hq => ?_⟩
      · rw [hname j hlt]
        exact hprop
      · rw [hname q (lt_trans hq hlt)]
        exact hfirst q hq
    · cases hfb
  · rw [hj]
    exact hcards
  · intro q hq hne
    rw [hj]
    rcases lt_or_ge q e.count with hlt | hge
    · simp only [fallsBackOn, hconf q hlt]
      exact h.only q hlt hne
    · obtain ⟨s, hs, hsconf⟩ := hnew q hq hge
      simp only [fallsBackOn, hsconf]
      exact (hfile s hs).2
  · intro q hq hne
    rw [hi]
    rcases lt_or_ge q e.count with hlt | hge
    · simp only [fallsBackOn, hconf q hlt]
      exact h.leads q hlt hne
    · obtain ⟨s, hs, hsconf⟩ := hnew q hq hge
      simp only [fallsBackOn, hsconf]
      exact (hfile s hs).1
  · rw [hi]
    exact h.unbound
  · rw [hi, hj]
    exact h.file
  · rw [hmain i h.here, hmain j h.there]
    exact h.main

end Pid1

/-! ## Runs -/

def Input.cmd? : Input → Option Cmd
  | .ctl _ _ c => some c
  | _ => none

namespace Pid1

/-- The event is no reload and no command for the fallback, and a service it adds falls back on neither
of the pair. -/
structure LeavesPair (i j : Nat) (e : Pid1) (x : Input) : Prop where
  reload : x.reload? = none
  command : ∀ c, x.cmd? = some c → c.target ≠ some (e.at_ j).conf.name
  add : ∀ path file, x.cmd? = some (.add path file) → e.SparesPair i j file

theorem LeavesPair.of_cmd {x : Input} (hreload : x.reload? = none) (hcmd : x.cmd? = none) : LeavesPair i j e x where
  reload := hreload
  command := by simp [hcmd]
  add := by simp [hcmd]

theorem Exclusive.add (h : e.Exclusive i j) (hp : e.Pairing i j) (w : World) (path : Bytes) (file : Option SvcFile) :
    (e.ctlAdd w path file).1.Exclusive i j := by
  obtain ⟨-, hold, -⟩ := ctlAdd_conf w path file e
  constructor
  · obtain ⟨d, g, hi⟩ := hold i hp.here
    obtain ⟨d', g', hj⟩ := hold j hp.there
    have h' := h.pair
    rw [hi, hj]
    exact {
      own := { h'.own with }
      unbound := { h'.unbound with }
      one := { h'.one with }
      other := { h'.other with }
      __ := h'
      rests := h'.rests }
  · unfold Clear
    rw [spawns_ctlAdd]
    exact h.clear

theorem step_exclusive {x : Input} (hp : e.Pairing i j) (he : e.Exclusive i j) (hx : LeavesPair i j e x) :
    (e.step x).Pairing i j ∧ (e.step x).Exclusive i j := by
  cases hcase : x.keepsTable with
  | true =>
    have hm := step_moves e x hcase
    refine ⟨hp.moves hm, ?_⟩
    have hcalm : (∀ q k, x.kinds e q k → k.calm = true) → (e.step x).Exclusive i j := fun hk =>
      (hm.mono (fun _ _ h => h) hk).allCalm hp.ne he
    cases x with
    | pass p =>
      rw [step]
      exact pass_exclusive hp he p
    | ctl w ws c =>
      rw [step]
      exact ctlCmd_exclusive hp he ws c hcase (hx.command c rfl)
    | wake q =>
      refine hcalm ?_
      rintro r k ⟨-, rfl | rfl⟩ <;> rfl
    | child w pid st =>
      refine hcalm ?_
      rintro r k (⟨-, rfl | rfl⟩ | ⟨-, rfl | ⟨rfl, -⟩ | ⟨rfl, -⟩⟩) <;> rfl
    | notify w m =>
      refine hcalm ?_
      rintro r k (rfl | ⟨-, rfl | ⟨rfl, -⟩⟩) <;> rfl
    | pause w paused =>
      refine hcalm ?_
      rintro r k (rfl | rfl) <;> rfl
    | inotify nowMs => exact hcalm fun _ _ hk => hk.elim
    | hup w ws c => cases hcase
  | false =>
    rcases step_loads e hcase with heq | ⟨r, hr, -⟩ | ⟨w, ws, path, file, hadd, heq⟩
    · rw [heq]
      exact ⟨hp, he⟩
    · rw [hx.reload] at hr
      cases hr
    · rw [heq]
      exact ⟨hp.add (hx.add path file (by rw [hadd]; rfl)) w path, he.add hp w path file⟩

theorem boot_idle {ws : Nat → World} {root : Bytes} {c : Config} {k : Nat} (hk : k < (boot ws root c).count) :
    let r := ((boot ws root c).at_ k).rt
    r.childPid = 0 ∧ r.fork.state = 0 ∧ r.main.wait = false ∧ r.bind.held = false ∧ r.card.standbyUp = false := by
  obtain ⟨s, hfresh, heq⟩ := boot_getElem (getElem?_at hk)
  have hs : s.rt.childPid = 0 ∧ s.rt.fork.state = 0 ∧ s.rt.main.wait = false ∧ s.rt.bind.held = false ∧
      s.rt.card.standbyUp = false := by
    rw [hfresh.rt]
    exact ⟨rfl, rfl, rfl, rfl, rfl⟩
  rw [heq]
  split
  · have harm := s.core_timerArm (ws k)
    refine ⟨?_, ?_, ?_, ?_, ?_⟩
    · exact (congrArg (·.rt.childPid) harm :).trans hs.1
    · exact (congrArg (·.rt.fork.state) harm :).trans hs.2.1
    · exact (congrArg (·.rt.main.wait) harm :).trans hs.2.2.1
    · exact (congrArg (·.rt.bind.held) harm :).trans hs.2.2.2.1
    · exact (congrArg (·.rt.card.standbyUp) harm :).trans hs.2.2.2.2
  · exact hs

theorem exclusive_started (hs : Started e) (hp : e.Pairing i j) : e.Exclusive i j := by
  obtain ⟨ws, root, c, -, rfl⟩ := hs
  obtain ⟨-, hfork, hwait, hheld, -⟩ := boot_idle hp.here
  obtain ⟨hchild, hfork', hwait', -, hup⟩ := boot_idle hp.there
  constructor
  · exact .beside ⟨hp.file.1, hp.main.1, hfork.ge, hwait⟩ ⟨hp.unbound, hheld⟩ ((oneChild_boot ws root c).at_ hp.here)
      ⟨hp.file.2, hp.main.2, hfork'.ge, hwait'⟩ ⟨hchild, hup⟩
  · simp [Clear, spawns, boot]

end Pid1

open Pid1 in
/-- Service `j` is the fallback of service `i` and of no other.  If `i` has no `bind=` and is nobody's fallback, and
neither hands its main process over to a daemon, then in every run without a reload and without a command for `j`
service `i` is spawned only while the main process of `j` is gone. -/
theorem never_next_to_fallback {s e : Pid1} {i j : Nat} (hs : Started s) (hpair : s.Pairing i j)
    (hrun : Run.Reaches step (LeavesPair i j) s e) {table : List Service} (hspawn : (i, table) ∈ e.spawns) :
    (table.getD j default).mainUp = false := by
  have hall := hrun.invariant (fun u => u.Pairing i j ∧ u.Exclusive i j) ⟨hpair, exclusive_started hs hpair⟩
    fun u x hu hx => step_exclusive hu.1 hu.2 hx
  exact hall.2.clear table hspawn

theorem Pid1.mem_spawns_getD (hn : n < e.spawns.length) (hi : (e.spawns.getD n default).1 = i) :
    (i, (e.spawns.getD n default).2) ∈ e.spawns := by
  have hget : e.spawns.getD n default = e.spawns[n] := by
    simp [hn]
  rw [← hi, hget]
  exact getElem_mem hn

/-- `a` fails, `x` takes over, `a` wakes, `x` is told to stop and exits, and `a` is started again. -/
def turnsRun : List Input :=
  [.pass (deckPass 1), deckExit 2 10, .pass (deckPass 3), .pass (deckPass 4),
    .pass (deckPass 305), .pass (deckPass 306),
    deckExit 307 41, .pass (deckPass 308)]

open Pid1 in
theorem never_next_to_fallback_turns : let s := deckBoot [deckFile "a" ["x"], deckFile "x" []]
    let call := (turnsRun.foldl step s).spawns.getD 2 default
    call.1 = 0 ∧ (call.2.getD 1 default).mainUp = false := by
  intro s call
  have hs : Started s := ⟨_, _, _, by decide +kernel, rfl⟩
  have hcards : (s.at_ 0).conf.cards = [.fallback (cstr "x")] ∧ (s.at_ 1).conf.cards = [] ∧
      (s.at_ 1).conf.name = cstr "x" := by decide +kernel
  have hnone : ∀ q < s.count, q ≠ 0 → ∀ name, (s.at_ q).fallsBackOn name = false := by
    intro q hq hne name
    have hcount : s.count = 2 := by decide +kernel
    obtain rfl : q = 1 := by omega
    simp [fallsBackOn, hcards.2.1]
  have hpair : s.Pairing 0 1 := by
    refine ⟨by decide +kernel, by decide +kernel, ?_, fun q hq hne =>
      hnone q hq hne _, fun q hq hne => hnone q hq hne _,
      by decide +kernel, by decide +kernel, by decide +kernel⟩
    intro name hname
    rw [hcards.2.2]
    simpa [fallsBackOn, hcards.1, eq_comm] using hname
  have hquiet : ∀ x ∈ turnsRun, x.reload?.isNone = true ∧ x.cmd?.isNone = true := by decide +kernel
  have hok : Run.AllOk step (LeavesPair 0 1) s turnsRun :=
    .of_forall (fun x hx u => .of_cmd (Option.isNone_iff_eq_none.mp (hquiet x hx).1)
      (Option.isNone_iff_eq_none.mp (hquiet x hx).2)) s
  have hfirst : call.1 = 0 := by decide +kernel
  have hlen : 2 < (turnsRun.foldl step s).spawns.length := by decide +kernel
  exact ⟨hfirst, never_next_to_fallback hs hpair hok.reaches (mem_spawns_getD hlen hfirst)⟩

def forkingX : SvcFile :=
  { deckFile "x" [] with conf := { (deckFile "x" []).conf with pidFile := cstr "/run/x.pid" } }

/-- The launcher of `x` exits shortly before `a` wakes: its daemon runs, and its `pid_file` is not there yet. -/
def forkingRun : List Input :=
  [.pass (deckPass 1), deckExit 2 10, .pass (deckPass 3), .pass (deckPass 4),
    .child { now := ⟨304, 0⟩ } 41 (.exited 0), .pass (deckPass 305), .pass (deckPass 306)]

def boundA : SvcFile :=
  { deckFile "a" [] with conf := { (deckFile "a" []).conf with
    bindName := cstr "b", depName := [cstr "b"], cards := [.exec (cstr "/bin/fix"), .fallback (cstr "x")] } }

def roomyPass (sec : Nat) : Input :=
  .pass { deckPass sec with
    w := { now := ⟨sec, 0⟩, memKb := 1000000 }
    tick := fun i => { now := ⟨sec, 0⟩, memKb := 1000000, fork := some (10 * sec + i) } }

/-- `a` is parked on `x` when its bound `b` dies, is held, and is started again when `b` is back, with `x` still asked
for: in a gap of `x`, next to which it then runs long enough for its mark to go.  It dies and is retried. -/
def boundRun : List Input :=
  [roomyPass 1, roomyPass 11, deckExit 20 111, roomyPass 20, roomyPass 21,
    deckExit 30 211, roomyPass 30, deckExit 31 10,
    roomyPass 31, roomyPass 32, roomyPass 33, roomyPass 44, roomyPass 44, deckExit 45 302, roomyPass 45, roomyPass 46,
    roomyPass 47, deckExit 350 451, roomyPass 351, roomyPass 352]

open Pid1 in
/-- `a` is spawned while the daemon of its fallback `x` runs; and, bound to `b`, while `x` itself runs. -/
theorem spawned_next_to_fallback :
    (let s := deckBoot [deckFile "a" ["x"], forkingX]
     Started s ∧ serviceFallback s.services 0 = some 1 ∧
       ∃ p ∈ (forkingRun.foldl step s).spawns, p.1 = 0 ∧ (p.2.getD 1 default).mainUp = true) ∧
    (let s := deckBoot [deckFile "b" [], boundA, deckFile "x" []]
     Started s ∧ serviceFallback s.services 1 = some 2 ∧
       ∃ p ∈ (boundRun.foldl step s).spawns, p.1 = 1 ∧ (p.2.getD 2 default).mainUp = true) := by
  refine ⟨⟨⟨_, _, _, ?_, rfl⟩, ?_⟩, ⟨⟨_, _, _, ?_, rfl⟩, ?_⟩⟩
  · decide +kernel
  · decide +kernel
  · decide +kernel
  · decide +kernel

end SchemaInit.Engine
