/-
# `SchemaInit.Engine.Shielded` — services that are not given up

`critical=1` and `no_excise=1` keep a service from being excised: the friction verdict and
the start timeout look at the two flags, and the service backs off in `DORMANT` instead.
The other ways to `EXCISED` do not look at them:

    no_restart=1        any death
    fuse=1              a dependency in `FRICTION` or `EXCISED`
    allowed_slot_min=   a violation sets `SVC_NO_RESTART`, the rest is as above
    pid_file=, main_pid_notify=1
                        the launcher is done and there is no cgroup to find the daemon in
    listen_lazy=1       the sockets cannot be opened

A service that takes none of these ways and is no standby enters `EXCISED` only when the
operator stops it or its bound holds it; after a failure its ticks retry, or back off in
`DORMANT` and retry from there (`shielded_not_excised`).
-/
import SchemaInit.Engine.Budget

namespace SchemaInit.Engine

open Service

/-! ## The services -/

/-- Critical or `no_excise`, and none of the ways to `EXCISED` that do not ask. -/
structure Shielded (c : Conf) (f : Flags) : Prop where
  kept : f.critical = true ∨ c.noExcise = true
  policy : c.noRestartCfg = false
  fuse : c.fuse = false
  slot : c.allowedSlotMin < 0
  lazy : c.listenLazy = false

/-- The service has just been loaded, and its timer armed if it is one. -/
def Service.Loaded (s : Service) : Prop :=
  ∃ s₀ : Service, s₀.Fresh ∧ ∃ w, s = if s₀.flags.timer then s₀.timerArm w else s₀

/-- What holds of such a service as long as the operator does not stop it. -/
structure Service.Up (s : Service) : Prop where
  shielded : Shielded s.conf s.flags
  restarts : s.flags.noRestart = false
  opened : s.rt.listen.hold = false
  standby : s.rt.card.standbyUp = false
  held : s.conf.bindName = [] → s.rt.bind.held = false

namespace Service.Up

variable {s s' : Service}

theorem keep (h : s.Up)
    (hs : (s'.conf, s'.flags, s'.rt.listen.hold, s'.rt.card.standbyUp) =
      (s.conf, s.flags, s.rt.listen.hold, s.rt.card.standbyUp))
    (hheld : s.conf.bindName = [] → s'.rt.bind.held = s.rt.bind.held) : s'.Up := by
  simp only [Prod.mk.injEq] at hs
  obtain ⟨hconf, hflags, hhold, hup⟩ := hs
  refine ⟨?_, ?_, hhold.trans h.opened, hup.trans h.standby, fun hnil => ?_⟩
  · rw [hconf, hflags]
    exact h.shielded
  · rw [hflags]
    exact h.restarts
  · rw [hconf] at hnil
    exact (hheld hnil).trans (h.held hnil)

theorem congr (h : s.Up) (hq : s'.core = s.core) : s'.Up :=
  h.keep (congrArg (fun t : Service => (t.conf, t.flags, t.rt.listen.hold, t.rt.card.standbyUp)) hq :)
    fun _ => (congrArg (·.rt.bind.held) hq :)

/-! ### Arcs -/

theorem exitArc {W : World → Prop} (h : s.Up) (ha : ExitArc W s s') : s'.Up := by
  cases ha with
  | hold hbind => exact h.keep rfl (absurd · hbind)
  | timer hchild htimer again =>
    have hs := h.shielded
    exact ⟨{ hs with }, h.restarts, h.opened, h.standby, h.held⟩
  | _ => exact h.keep rfl fun _ => rfl

theorem tickArc {W : World → Prop} {e : Pid1} {i : Nat} (h : s.Up)
    (hname : serviceIsStandby e.services i = false) (ha : TickArc W e i s s') : s'.Up := by
  cases ha with
  | standby hst hup hstandby => simp [hname] at hstandby
  | skipTimer hst htimer again =>
    have hs := h.shielded
    exact ⟨{ hs with }, h.restarts, h.opened, h.standby, h.held⟩
  | listenFail hst hhold => simp [h.opened] at hhold
  | _ => exact h.keep rfl fun _ => rfl

theorem spawnArc {e : Pid1} (h : s.Up) (ha : SpawnArc e s s') : s'.Up := by
  cases ha with
  | slot n hn hslot => exact absurd hslot (not_le.mpr h.shielded.slot)
  | _ => exact h.keep rfl fun _ => rfl

theorem ctlArc {e : Pid1} {i : Nat} (h : s.Up) (hname : serviceIsStandby e.services i = false)
    (ha : CtlArc e i s s') : s'.Up := by
  have hs := h.shielded
  cases ha with
  | start => exact ⟨{ hs with }, hs.policy, rfl, h.standby, h.held⟩
  | rearm up hup =>
    have hno : up = false := by
      rw [← Bool.not_eq_true]
      intro hyes
      simp [hname, hyes] at hup
    subst hno
    exact ⟨hs, h.restarts, h.opened, by rw [h.standby, Bool.or_false], fun _ => rfl⟩
  | restart => exact ⟨{ hs with }, hs.policy, rfl, h.standby, h.held⟩
  | restartIdle => exact ⟨{ hs with }, hs.policy, rfl, h.standby, h.held⟩
  | policy => exact ⟨{ hs with }, hs.policy, h.opened, h.standby, h.held⟩
  | _ => exact h.keep rfl fun _ => rfl

theorem arc {W : Nat → World → Prop} {e : Pid1} {i : Nat} {k : Kind} (h : s.Up)
    (hname : serviceIsStandby e.services i = false) (hhalt : k ≠ .halt) (ha : Arc W e i k s s') :
    s'.Up := by
  cases k with
  | help =>
    cases ha with
    | quiet hq => exact h.congr hq
    | tree => exact h.keep rfl fun _ => rfl
  | exit => exact h.exitArc ha
  | tick => exact h.tickArc hname ha
  | other => exact absurd rfl (ha.unasked hname h.standby)
  | stop =>
    cases ha with
    | bindStop hbind => exact h.keep rfl (absurd · hbind)
  | bind =>
    cases ha with
    | release => exact ⟨h.shielded, h.restarts, h.opened, h.standby, fun _ => rfl⟩
    | start => exact ⟨h.shielded, h.restarts, h.opened, h.standby, fun _ => rfl⟩
    | hold hbind => exact h.keep rfl (absurd · hbind)
    | excise hbind => exact h.keep rfl (absurd · hbind)
    | reclassify hbind => exact h.keep rfl (absurd · hbind)
  | wake =>
    cases ha with
    | wake => exact ⟨h.shielded, h.restarts, rfl, h.standby, h.held⟩
  | ctl => exact h.ctlArc hname ha
  | halt => exact absurd rfl hhalt
  | _ => cases ha <;> exact h.keep rfl fun _ => rfl

/-- How an arc can end in `EXCISED`: the service was there before, or its bound holds it. -/
theorem excised {W : Nat → World → Prop} {e : Pid1} {i : Nat} {k : Kind} (h : s.Up)
    (hname : serviceIsStandby e.services i = false) (hk : k ≠ .halt ∧ k ≠ .lost)
    (ha : Arc W e i k s s') (hst : s'.rt.inst.state = .excised) :
    s.rt.inst.state = .excised ∧ (k = .ctl ∨ (s.rt.bind.held = true → s'.rt.bind.held = true)) ∨
      s'.rt.bind.held = true ∧ (k = .exit ∨ k = .bind) := by
  have hs := h.shielded
  cases k with
  | help =>
    cases ha with
    | quiet hq =>
      have hheld : s'.rt.bind.held = s.rt.bind.held := (congrArg (·.rt.bind.held) hq :)
      exact .inl ⟨(congrArg (·.rt.inst.state) hq :).symm.trans hst, .inr fun h => hheld.trans h⟩
    | tree => exact .inl ⟨hst, .inr id⟩
  | exit =>
    cases ha with
    | bound hchild hheld => exact .inr ⟨hheld, .inl rfl⟩
    | hold => exact .inl ⟨hst, .inr fun _ => rfl⟩
    | noRestart hchild hno => simp [h.restarts] at hno
    | _ => first | exact .inl ⟨hst, .inr id⟩ | simp at hst
  | lost => exact absurd rfl hk.2
  | tick =>
    cases ha with
    | fuse hfuse => simp [hs.fuse] at hfuse
    | standby _ _ hstandby => simp [hname] at hstandby
    | listenFail _ hhold => simp [h.opened] at hhold
    | startTimeout _ _ _ hcrit hexc => rcases hs.kept with hkept | hkept <;> simp_all
    | readyExcised _ _ _ _ hno => simp [h.restarts] at hno
    | breaker _ _ hcrit hexc => rcases hs.kept with hkept | hkept <;> simp_all
    | _ => first | exact .inl ⟨hst, .inr id⟩ | simp at hst
  | other => exact absurd rfl (ha.unasked hname h.standby)
  | stop =>
    cases ha with
    | bindStop => exact .inl ⟨hst, .inr fun _ => rfl⟩
  | bind =>
    cases ha with
    | release hbind hheld => simp [h.held hbind] at hheld
    | start => simp at hst
    | _ => exact .inr ⟨rfl, .inr rfl⟩
  | monitor =>
    cases ha with
    | refresh => exact .inl ⟨hst, .inr id⟩
    | retry => simp at hst
    | excise hwait hno => simp [h.restarts] at hno
  | ctl => cases ha <;> first | exact .inl ⟨hst, .inl rfl⟩ | simp at hst
  | halt => exact absurd rfl hk.1
  | _ => cases ha <;> first | exact .inl ⟨hst, .inr id⟩ | simp at hst

theorem of_fresh (h : s.Fresh) (hs : Shielded s.conf s.flags) :
    s.Up ∧ s.rt.inst.state ≠ .excised := by
  refine ⟨⟨hs, h.policy.trans hs.policy, ?_, ?_, fun _ => ?_⟩, ?_⟩
  · rw [h.rt]
    exact hs.lazy
  · rw [h.rt]; rfl
  · rw [h.rt]; rfl
  · rw [h.rt]
    simp [fresh, schemaInstanceInit]

theorem of_loaded (h : s.Loaded) (hs : Shielded s.conf s.flags) :
    s.Up ∧ s.rt.inst.state ≠ .excised := by
  obtain ⟨s₀, hfresh, w, rfl⟩ := h
  by_cases htimer : s₀.flags.timer = true
  · rw [if_pos htimer] at hs ⊢
    have hcore := core_timerArm w s₀
    have hconf : (s₀.timerArm w).conf = s₀.conf := (congrArg conf hcore :)
    have hflags : (s₀.timerArm w).flags = s₀.flags := (congrArg flags hcore :)
    have hst : (s₀.timerArm w).rt.inst.state = .perfect := (congrArg (·.rt.inst.state) hcore :)
    rw [hconf, hflags] at hs
    have hup : Service.Up { s₀ with rt.inst.state := .perfect } := (of_fresh hfresh hs).1.keep rfl fun _ => rfl
    exact ⟨hup.congr hcore, by simp [hst]⟩
  · rw [if_neg htimer] at hs ⊢
    exact of_fresh hfresh hs

end Service.Up

/-! ## Ticks after a failure -/

namespace Pid1

/-- After a failure the ticks of service `i` retry or back off in `DORMANT`, and from there
they retry when its time has come; a fallback card left to play is played first. -/
structure Retries (e : Pid1) (i : Nat) : Prop where
  recovery : (e.at_ i).rt.inst.state = .recovery → ∀ w groups,
    ((e.tickService w groups i).at_ i).rt.inst.state ∈ [.newProcess, .friction, .dormant]
  friction : (e.at_ i).rt.inst.state = .friction → ∀ w groups,
    ((e.tickService w groups i).at_ i).rt.inst.state ∈ [.newProcess, .dormant]
  dormant : (e.at_ i).rt.inst.state = .dormant → ∀ w groups,
    w.now.sec ≥ (e.at_ i).rt.dormantUntil.sec →
    ((e.tickService w groups i).at_ i).rt.inst.state = .newProcess ∨
      ((e.tickService w groups i).at_ i).rt.inst.state = .dormant ∧
      ∃ name, (e.at_ i).conf.cards[(e.at_ i).rt.card.next]? = some (.fallback name) ∧
        ((e.tickService w groups i).at_ i).rt.card.next = (e.at_ i).rt.card.next + 1

variable {e : Pid1} {i : Nat}

theorem playCard_at (w : World) (hi : i < e.count) (hst : (e.at_ i).rt.inst.state = .newProcess) :
    ((e.playCard w i).at_ i).rt.inst.state = .newProcess ∨
      ((e.playCard w i).at_ i).rt.inst.state = .dormant ∧
      ∃ name, (e.at_ i).conf.cards[(e.at_ i).rt.card.next]? = some (.fallback name) ∧
        ((e.playCard w i).at_ i).rt.card.next = (e.at_ i).rt.card.next + 1 := by
  unfold playCard
  dsimp only
  split
  · exact .inl hst
  · split
    · exact .inl hst
    next name hcard =>
      split
      · rw [mod, at_put hi]
        exact .inl hst
      next j hfb =>
        obtain ⟨hj, hne, _⟩ := serviceFallback_spec hfb
        refine .inr ?_
        dsimp only [mod]
        rw [at_put (by simpa using hi), at_put_ne hne, at_put hi]
        exact ⟨rfl, name, hcard, rfl⟩
    · rw [mod, at_put hi]
      exact .inl hst

theorem requeue_at (w : World) (hi : i < e.count) :
    ((e.requeue w i).at_ i).rt.inst.state ∈ [.newProcess, .dormant] := by
  unfold requeue
  have hst : ((e.mod i fun s => Service.holdRetry { s with
      rt.inst.state := .newProcess, rt.restartCount := s.rt.restartCount + 1 } w.now).at_ i).rt.inst.state =
      .newProcess := by
    rw [mod, at_put hi]
    rfl
  rcases playCard_at w (by simpa using hi) hst with h | h
  · simp [h]
  · simp [h.1]

/-- The deck of a service works on another one. -/
theorem fallbackUpOf_at (e : Pid1) : (e.fallbackUpOf i).at_ i = e.at_ i := by
  unfold fallbackUpOf
  split
  · split
    · rfl
    next j hfb => exact at_put_ne (serviceFallback_spec hfb).2.1
  · rfl

theorem fallbackDownOf_deck (w : World) (e : Pid1) :
    ((e.fallbackDownOf w i).at_ i).rt.card.next = (e.at_ i).rt.card.next ∧
      ((e.fallbackDownOf w i).at_ i).conf = (e.at_ i).conf ∧
      (e.fallbackDownOf w i).count = e.count := by
  have hm : Moves (fun _ _ => True) (fun _ _ => True)
      (fun j k => k = .help ∨ k = .stop ∨ k = .other ∧ j ≠ i) e (e.fallbackDownOf w i) :=
    fallbackDownOf_moves (fun _ => .inl rfl) (fun _ => .inr (.inl rfl))
      (fun j hj => .inr (.inr ⟨rfl, (serviceFallback_spec hj).2.1⟩)) w
  refine ⟨?_, hm.conf i, hm.count⟩
  refine hm.invariantAt (P := fun s => s.rt.card.next = (e.at_ i).rt.card.next)
    (fun u k s s' _ hk ha hs => ?_) (by simp) (by simp) rfl
  rcases hk with rfl | rfl | ⟨-, hne⟩
  · cases ha with
    | quiet hq => exact (congrArg (·.rt.card.next) hq :).trans hs
    | tree => exact hs
  · cases ha with
    | bindStop => exact hs
  · exact absurd rfl hne

theorem tickService_calm {groups : List State} (hfuse : (e.at_ i).conf.fuse = false) (w : World) :
    e.tickService w groups i = e.tickState w groups i := by
  rw [tickService, if_neg]
  simp [fuseTrips, hfuse]

end Pid1

/-- The verdict on a service that is kept is to park it. -/
theorem Shielded.verdict {s : Service} (h : Shielded s.conf s.flags) (w : World) :
    (s.frictionVerdict w).rt.inst.state = .dormant := by
  rw [Service.frictionVerdict, if_neg]
  · rfl
  · rcases h.kept with hkept | hkept <;> simp [hkept]

open Pid1 in
theorem Shielded.retries {e : Pid1} {i : Nat} (hs : Shielded (e.at_ i).conf (e.at_ i).flags)
    (hi : i < e.count) : e.Retries i := by
  constructor
  case recovery =>
    intro hst w groups
    rw [tickService_calm hs.fuse, tickState, hst]
    obtain ⟨inst, ⟨-, heq⟩ | ⟨hstate, heq⟩⟩ := tickRecovery_cases w hi hst
    · have hsub : ([.newProcess, .dormant] : List State) ⊆ [.newProcess, .friction, .dormant] := by
        decide
      exact hsub (heq ▸ requeue_at w (by simpa using hi))
    · simp only [heq, at_put hi, hstate]
      decide
  case friction =>
    intro hst w groups
    rw [tickService_calm hs.fuse, tickState, hst]
    obtain ⟨inst, ⟨-, heq⟩ | ⟨-, -, heq⟩⟩ := tickFriction_cases w hi hst
    · exact heq ▸ requeue_at w (by simpa using hi)
    · simp only [heq, fallbackUpOf_at, at_on hi]
      have hparked := @Shielded.verdict (Loc.killTree { svc := { e.at_ i with rt.inst := inst } }).svc hs w
      exact List.mem_cons_of_mem _ (List.mem_singleton.mpr hparked)
  case dormant =>
    intro hst w groups hdue
    rw [tickService_calm hs.fuse, tickState, hst]
    simp only [tickDormant, if_pos hdue]
    generalize hwoken : (e.mod i fun s =>
      { s with rt.inst.state := .newProcess, rt.restartCount := s.rt.restartCount + 1 }) = u
    have hat : u.at_ i = { e.at_ i with
        rt.inst.state := .newProcess, rt.restartCount := (e.at_ i).rt.restartCount + 1 } := by
      rw [← hwoken, mod, at_put hi]
    obtain ⟨hnext, hconf, hcount⟩ := fallbackDownOf_deck w u (i := i)
    have hplayed := playCard_at w (e := fallbackDownOf w i u) (i := i)
      (by rw [hcount, ← hwoken]; simpa using hi) (by rw [fallbackDownOf_state, hat])
    rw [hnext, hconf, hat] at hplayed
    exact hplayed

/-! ## Events -/

/-- The table stays as it is, the operator does not stop service `i`, and its launcher does
not come to an end without a cgroup. -/
def Input.leavesUp (i : Nat) (e : Pid1) : Input → Bool
  | .hup _ _ _ => false
  | .ctl _ _ (.add _ _) => false
  | .ctl _ _ (.reload _ _) => false
  | .ctl _ _ (.stop name) => e.find name ≠ some i
  | .child _ pid st => (e.at_ i).rt.childPid ≠ pid || !st.clean ||
      !(e.at_ i).rt.cgroupPath.isEmpty ||
      (!(e.at_ i).flags.mainPidNotify && (e.at_ i).conf.pidFile.isEmpty)
  | _ => true

namespace Pid1

/-- What an event leaves of such a service.  It enters `EXCISED` only by its bound: no command
leads there, and other events take a hold back only with the state. -/
theorem up_step {e : Pid1} {i : Nat} (h : (e.at_ i).Up)
    (hname : serviceIsStandby e.services i = false) {x : Input} (hx : x.leavesUp i e = true) :
    ((e.step x).at_ i).Up ∧ serviceIsStandby (e.step x).services i = false ∧
      ((e.step x).at_ i).conf = (e.at_ i).conf ∧
      ((e.at_ i).rt.inst.state ≠ .excised → ((e.step x).at_ i).rt.inst.state = .excised →
        ((e.step x).at_ i).rt.bind.held = true) := by
  have hkeeps : x.keepsTable = true := by
    cases x with
    | hup => cases hx
    | ctl w ws c => cases c <;> first | rfl | cases hx
    | _ => rfl
  have hhalt : ¬ x.kinds e i .halt := by
    cases x with
    | ctl w ws c =>
      cases c with
      | stop name =>
        have hne : e.find name ≠ some i := by simpa [Input.leavesUp] using hx
        simp [Input.kinds, Cmd.kinds, hne]
      | _ => simp [Input.kinds, Cmd.kinds, Cmd.target]
    | _ => simp [Input.kinds, exitKinds, hearKinds, Kind.inPass]
  have hctl : x.kinds e i .ctl → ∀ k, x.kinds e i k → k ≠ .exit ∧ k ≠ .bind := by
    intro hc k hk
    cases x with
    | ctl w ws c =>
      rcases Cmd.kinds_cases hk with rfl | rfl | rfl | rfl | hk <;> try simp
      constructor <;> rintro rfl <;> cases hk
    | _ => simp [Input.kinds, exitKinds, hearKinds, Kind.inPass] at hc
  -- a launcher that ends without a cgroup is none of these services'
  have hlost : x.kinds e i .lost →
      (e.at_ i).flags.mainPidNotify = false ∧ (e.at_ i).conf.pidFile = [] := by
    intro hk
    cases x with
    | child w pid st =>
      simp only [Input.kinds, exitKinds, reduceCtorEq, or_self, and_false, false_and, true_and,
        false_or] at hk
      obtain ⟨hchild, hclean, hcg⟩ := hk
      simpa [Input.leavesUp, hchild, hclean, hcg] using hx
    | ctl w ws c => exact absurd (Cmd.kinds_cases hk) (by simp [Kind.byOperator])
    | _ => simp [Input.kinds, hearKinds, Kind.inPass] at hk
  have hm := step_moves e x hkeeps
  have hrun := hm.ruleAt (i := i) (P := fun s _ => (s.Up ∧ s.static = (e.at_ i).static) ∧
    ((e.at_ i).rt.inst.state ≠ .excised → s.rt.inst.state = .excised →
      s.rt.bind.held = true ∧ ¬ x.kinds e i .ctl)) ?_ ?_ ?_ ⟨⟨h, rfl⟩, fun hne hst => absurd hst hne⟩
  · exact ⟨hrun.1.1, (hm.standby i).trans hname, hm.conf i, fun hne hst => (hrun.2 hne hst).1⟩
  · rintro u k s s' _ hu hk harc ⟨⟨hs, hstatic⟩, hent⟩
    have hkh : k ≠ .halt := fun heq => hhalt (heq ▸ hk)
    have hup := hs.arc ((hu.standby i).trans hname) hkh harc
    refine ⟨⟨hup, harc.static.trans hstatic⟩, fun hne hst => ?_⟩
    have hkl : k ≠ .lost := by
      rintro rfl
      obtain ⟨hmain, hfile⟩ := hlost hk
      have hmain' : s.flags.mainPidNotify = (e.at_ i).flags.mainPidNotify :=
        congrArg (fun t : Conf × Flags × List _ × List _ => t.2.1.mainPidNotify) hstatic
      have hconf : s.conf = (e.at_ i).conf := congrArg Prod.fst hstatic
      cases harc with
      | launcher hchild hnotify => simp [hmain', hmain] at hnotify
      | fork hchild hne => exact absurd (by rw [hconf, hfile]) hne
    rcases hs.excised ((hu.standby i).trans hname) ⟨hkh, hkl⟩ harc hst with
      ⟨hbefore, hwhy⟩ | ⟨hheld, hwhy⟩
    · obtain ⟨hheld, hno⟩ := hent hne hbefore
      exact ⟨hwhy.elim (fun heq => absurd (heq ▸ hk) hno) fun hkeep => hkeep hheld, hno⟩
    · refine ⟨hheld, fun hc => ?_⟩
      have := hctl hc k hk
      tauto
  · rintro _ u s t s' _ _ _ harc hq ⟨⟨hs, hstatic⟩, _⟩
    have hstatic' : s'.static = t.static := (congrArg static hq :)
    refine ⟨⟨(hs.spawnArc harc).congr hq, hstatic'.trans (harc.static.trans hstatic)⟩, ?_⟩
    intro _ hst
    have hst' : t.rt.inst.state = .excised := (congrArg (·.rt.inst.state) hq :).symm.trans hst
    cases harc <;> simp at hst'
  · rintro _ s _ b ⟨⟨hs, hstatic⟩, hent⟩
    exact ⟨⟨hs.keep rfl fun _ => rfl, hstatic⟩, hent⟩

/-- From its load on, a shielded service that is no standby enters `EXCISED` only when its bound
holds it, whatever happens but an operator's stop, a change of the table and the end of its
launcher without a cgroup; without a bound it is never there.  Its ticks retry after a
failure, or back off in `DORMANT` and retry from there. -/
theorem shielded_not_excised {e₀ e : Pid1} {i : Nat} (hload : (e₀.at_ i).Loaded)
    (hs : Shielded (e₀.at_ i).conf (e₀.at_ i).flags)
    (hname : serviceIsStandby e₀.services i = false)
    (h : Run.Reaches step (fun e x => Input.leavesUp i e x = true) e₀ e) :
    ((e.at_ i).conf.bindName = [] → (e.at_ i).rt.inst.state ≠ .excised) ∧
    (∀ x, Input.leavesUp i e x = true → (e.at_ i).rt.inst.state ≠ .excised →
      ((e.step x).at_ i).rt.inst.state = .excised → ((e.step x).at_ i).rt.bind.held = true) ∧
    ∀ u : Pid1, i < u.count → (u.at_ i).static = (e.at_ i).static → u.Retries i := by
  obtain ⟨hup₀, hst₀⟩ := Service.Up.of_loaded hload hs
  have hinv := h.invariant (fun u => (u.at_ i).Up ∧ serviceIsStandby u.services i = false ∧
      ((u.at_ i).conf.bindName = [] → (u.at_ i).rt.inst.state ≠ .excised))
    ⟨hup₀, hname, fun _ => hst₀⟩ fun u x hu hx => by
      obtain ⟨hup, hstandby, hconf, henter⟩ := up_step hu.1 hu.2.1 hx
      refine ⟨hup, hstandby, fun hnil hst => ?_⟩
      have hheld := henter (hu.2.2 (hconf ▸ hnil)) hst
      simp [hup.held hnil] at hheld
  obtain ⟨hup, hstandby, hfree⟩ := hinv
  refine ⟨hfree, fun x hx => (up_step hup hstandby hx).2.2.2, fun u hi hstatic => ?_⟩
  have hconf : (u.at_ i).conf = (e.at_ i).conf := congrArg Prod.fst hstatic
  have hcrit : (u.at_ i).flags.critical = (e.at_ i).flags.critical :=
    congrArg (fun t : Conf × Flags × List _ × List _ => t.2.1.critical) hstatic
  have hs := hup.shielded
  refine Shielded.retries ?_ hi
  rw [hconf]
  exact { hs with kept := hcrit ▸ hs.kept }

/-! ## A critical service that dies -/

/-- A critical service alone, with or without `no_restart=1`. -/
def criticalBoot (noRestart : Bool) : Pid1 :=
  bootOne { name := cstr "web", exec := cstr "/bin/web" } { critical := true, noRestart := noRestart }

/-- It is started, and its process fails. -/
def criticalRun : List Input :=
  [passAt 1 7, failAt 3 7]

theorem shielded_not_excised_once :
    Run.Reaches step (fun e x => Input.leavesUp 0 e x = true) (criticalBoot false)
        (criticalRun.foldl step (criticalBoot false)) ∧
      ((criticalRun.foldl step (criticalBoot false)).at_ 0).rt.inst.state ≠ .excised ∧
      (criticalRun.foldl step (criticalBoot false)).Retries 0 := by
  have hok : Run.AllOk step (fun e x => Input.leavesUp 0 e x = true) (criticalBoot false)
      criticalRun := by
    decide +kernel
  obtain ⟨s, hfresh, hs⟩ :=
    boot_getElem (getElem?_at (e := criticalBoot false) (i := 0) (by decide +kernel))
  have hshielded : Shielded ((criticalBoot false).at_ 0).conf ((criticalBoot false).at_ 0).flags :=
    ⟨.inl (by decide +kernel), by decide +kernel, by decide +kernel, by decide +kernel,
      by decide +kernel⟩
  have h := shielded_not_excised ⟨s, hfresh, _, hs⟩ hshielded (by decide +kernel) hok.reaches
  exact ⟨hok.reaches, h.1 (by decide +kernel), h.2.2 _ (by decide +kernel) rfl⟩

/-- With `no_restart=1` its first death excises it. -/
theorem critical_no_restart_excised :
    ∃ s e, Started s ∧ 0 < s.count ∧ (s.at_ 0).flags.critical = true ∧
    (s.at_ 0).conf.bindName = [] ∧ serviceIsStandby s.services 0 = false ∧
    Run.Reaches step (fun _ x => ∀ w ws c, x ≠ .ctl w ws c) s e ∧ (e.at_ 0).rt.inst.state = .excised := by
  refine ⟨criticalBoot true, criticalRun.foldl step _, ⟨_, _, _, ?_, rfl⟩, ?_, ?_, ?_, ?_,
    Run.AllOk.reaches ?_, ?_⟩
  case refine_6 => simp [criticalRun, Run.AllOk, passAt, failAt]
  all_goals decide +kernel

end Pid1

end SchemaInit.Engine
