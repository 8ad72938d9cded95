/-
# `SchemaInit.Engine.Fallback` — how long a fallback stays asked for

A `card=fallback:X` asks for service `X` while the service that plays it is parked.  The
request is one bit of `X` (`standby_up`).  It is set by `fallback_up` and taken back by
`fallback_down`, which is called when a service wakes from its park and when the operator
starts, restarts or resets it.

Neither the card nor the player is part of the request.  `play_card` asks for the fallback
that `service_fallback` finds, which is that of the *first* fallback card with a service
in the table, whichever card is played.  And the bit has no owner: of two services parked on
the same fallback, the first to wake takes it from the other (`fallback_request_lost` has both).
`fallback_stays_asked` is what remains: if the card is the first, and no other service that
falls back on `X` lets go of it, it stays asked for until its player lets go.
-/
import SchemaInit.Engine.Names
import SchemaInit.Engine.OneChild

namespace SchemaInit.Engine

open Loc Service Bool List

variable {W : Nat → World → Prop} {e e' : Pid1} {i j : Nat} {s : Service} {G : Pid1 → Nat → Prop}
    {f : Service → Service} {x : Bytes} {w : World}

/-! ## What keeps the request -/

theorem Arc.standbyUp {k : Kind} {s' : Service} (h : Arc W e i k s s')
    (hother : k ≠ .other) (hctl : k ≠ .ctl) : s'.rt.card.standbyUp = s.rt.card.standbyUp := by
  cases k with
  | help =>
    cases h with
    | quiet hq => exact (congrArg (·.rt.card.standbyUp) hq :)
    | tree => rfl
  | other => exact absurd rfl hother
  | ctl => exact absurd rfl hctl
  | _ => cases h <;> rfl

theorem Arc.asked {k : Kind} {s' : Service} (h : Arc W e i k s s')
    (hk : k ≠ .other) (hs : s.rt.card.standbyUp = true) : s'.rt.card.standbyUp = true := by
  by_cases hctl : k = .ctl
  · subst hctl
    cases h with
    | rearm up => exact or_eq_true_iff.mpr (.inl hs)
    | _ => exact hs
  · exact (h.standbyUp hk hctl).trans hs

theorem Moves.asked {K : Nat → Kind → Prop}
    (h : Moves W G K e e') (hK : ¬ K j .other) (hs : (e.at_ j).rt.card.standbyUp = true) :
    (e'.at_ j).rt.card.standbyUp = true := by
  refine h.invariantAt (P := fun s => s.rt.card.standbyUp = true) ?_ ?_ (fun _ s b hs => hs) hs
  · intro u k s s' _ hk ha hs
    exact ha.asked (fun hother => hK (hother ▸ hk)) hs
  · intro _ u s t s' _ _ ha hq hs
    have ht : t.rt.card.standbyUp = true := by cases ha <;> exact hs
    exact (congrArg (·.rt.card.standbyUp) hq :).trans ht

variable (p : Pass)

namespace Pid1

abbrev Wanted (j : Nat) (e : Pid1) : Prop := (e.at_ j).rt.card.standbyUp = true

theorem asked_mod (hf : ∀ s, s.rt.card.standbyUp = true → (f s).rt.card.standbyUp = true)
    (hs : e.Wanted j) : (e.mod i f).Wanted j := by
  unfold Wanted at hs ⊢
  by_cases hij : i = j
  · subst hij
    by_cases hi : i < e.count
    · rw [mod, at_put hi]
      exact hf _ hs
    · rw [mod, put_of_le (Nat.not_lt.mp hi)]
      exact hs
  · rw [mod, at_put_ne hij]
    exact hs

theorem asked_on {f : Loc → Loc} (hf : ∀ l, l.svc.rt.card.standbyUp = true → (f l).svc.rt.card.standbyUp = true)
    (hs : e.Wanted j) : (e.on w i f).Wanted j := by
  unfold Wanted at hs ⊢
  by_cases hij : i = j
  · subst hij
    by_cases hi : i < e.count
    · rw [at_on hi]
      exact hf _ hs
    · rw [on, put_of_le, at_of_fixed (keeps_foldl_apply ..).1]
      · exact hs
      · rw [count_of_fixed (keeps_foldl_apply ..).1]
        exact Nat.not_lt.mp hi
  · rw [at_on_ne hij]
    exact hs

theorem playCard_asked (hs : e.Wanted j) : (e.playCard w i).Wanted j := by
  unfold playCard
  dsimp only
  split
  · exact hs
  · split
    · exact hs
    · split
      · exact asked_mod (fun _ h => h) hs
      · exact asked_mod (fun _ h => h) (asked_mod (by simp) (asked_mod (fun _ h => h) hs))
    · exact asked_mod (fun _ h => h) hs

theorem requeue_asked (hs : e.Wanted j) : (e.requeue w i).Wanted j :=
  playCard_asked (asked_mod (fun _ h => h) hs)

theorem fallbackUpOf_asked (hs : e.Wanted j) : (e.fallbackUpOf i).Wanted j := by
  unfold fallbackUpOf
  split
  · split
    · exact hs
    · exact asked_mod (by simp) hs
  · exact hs

theorem tickRecovery_asked (hs : e.Wanted j) : (e.tickRecovery w i).Wanted j := by
  have hvoted := asked_on (i := i) (w := w) (f := Loc.schemaStep (serviceProbeF9 w e.services i)) (fun _ h => h) hs
  unfold tickRecovery
  dsimp only
  split
  · exact requeue_asked hvoted
  · exact hvoted

theorem tickFriction_asked (hs : e.Wanted j) : (e.tickFriction w i).Wanted j := by
  have hvoted := asked_on (i := i) (w := w) (f := Loc.schemaStep (serviceProbeF6 w (e.at_ i))) (fun _ h => h) hs
  have hverdict : ∀ s : Service, s.rt.card.standbyUp = true → (s.frictionVerdict w).rt.card.standbyUp = true := by
    intro s h
    unfold frictionVerdict
    split
    · exact h
    · exact h
  unfold tickFriction
  dsimp only
  split
  · exact requeue_asked hvoted
  · split
    · exact fallbackUpOf_asked (asked_on (fun l h => hverdict _ h) hvoted)
    · exact hvoted

/-- A service lets go of its fallback: its mark is set, and it is the one that is asked for. -/
def letsGo (i j : Nat) (e : Pid1) : Bool :=
  (e.at_ i).rt.card.fallbackLive && serviceFallback e.services i = some j

theorem fallbackDownOf_asked (hkeep : e.letsGo i j = false) (hs : e.Wanted j) : (e.fallbackDownOf w i).Wanted j := by
  unfold fallbackDownOf
  split
  next hlive =>
    cases hfb : serviceFallback e.services i with
    | none => exact hs
    | some t =>
      have hne : t ≠ j := by
        rintro rfl
        simp [letsGo, hlive, hfb] at hkeep
      have hm : AnyMoves (fun q k => k = .other → q = t) e (e.fallbackDown w t) :=
        fallbackDown_moves (fun _ => nofun) (fun _ => nofun) (fun _ => rfl) w (serviceFallback_spec hfb).1
      exact hm.asked (fun hK => hne (hK rfl).symm) hs
  · exact hs

def wakes (w : World) (i : Nat) (e : Pid1) : Bool :=
  !fuseTrips e.services (e.at_ i) && (e.at_ i).rt.inst.state = .dormant && w.now.sec ≥ (e.at_ i).rt.dormantUntil.sec

theorem letsGo_congr (hcount : e'.count = e.count) (hconf : ∀ q, (e'.at_ q).conf = (e.at_ q).conf)
    (hlive : (e'.at_ i).rt.card.fallbackLive = (e.at_ i).rt.card.fallbackLive) : e'.letsGo i j = e.letsGo i j := by
  unfold letsGo
  rw [hlive, serviceFallback_congr hcount hconf]

theorem letsGo_mod (hkeep : e.letsGo i j = false) (hconf : (f (e.at_ i)).conf = (e.at_ i).conf)
    (hlive : (f (e.at_ i)).rt.card.fallbackLive = (e.at_ i).rt.card.fallbackLive) : (e.mod i f).letsGo i j = false := by
  by_cases hi : i < e.count
  · refine (letsGo_congr (count_mod e i f) (fun q => ?_) (by rw [mod, at_put hi, hlive])).trans hkeep
    by_cases hq : i = q
    · subst hq
      rw [mod, at_put hi, hconf]
    · rw [mod, at_put_ne hq]
  · rw [mod, put_of_le (Nat.not_lt.mp hi)]
    exact hkeep

theorem letsGo_on {f : Loc → Loc} (hkeep : e.letsGo i j = false)
    (hconf : (f { svc := e.at_ i }).svc.conf = (e.at_ i).conf)
    (hlive : (f { svc := e.at_ i }).svc.rt.card.fallbackLive = (e.at_ i).rt.card.fallbackLive) (hi : i < e.count) :
    (e.on w i f).letsGo i j = false := by
  refine (letsGo_congr (count_on w i f e) (fun q => ?_) (by rw [at_on hi, hlive])).trans hkeep
  by_cases hq : i = q
  · subst hq
    rw [at_on hi, hconf]
  · rw [at_on_ne hq]

theorem tickService_asked {groups : List State} (hi : i < e.count) (hkeep : (e.wakes w i && e.letsGo i j) = false)
    (hs : e.Wanted j) : (e.tickService w groups i).Wanted j := by
  unfold tickService
  split
  next hfuse =>
    -- the fuse leaves the service in `EXCISED`, where the tick does nothing
    have hblown : AnyMoves (fun _ k => k ≠ .other) e (e.on w i tickFuse) :=
      Moves.refl.work w hi fun u _ => tickFuse_work (by simp) (by simp) (by simp)
        (by simp only [fuseTrips, and_eq_true] at hfuse; exact hfuse.1.1)
    have hstate : ((e.on w i tickFuse).at_ i).rt.inst.state = .excised := by
      rw [at_on hi]
      unfold tickFuse
      dsimp only
      split
      · rfl
      · rfl
    rw [tickState]
    simp only [hstate]
    exact hblown.asked (fun h => h rfl) hs
  next hfuse =>
    by_cases hplain : (e.at_ i).rt.inst.state.plain = true
    · have hm : AnyMoves (fun _ k => k ≠ .other) e (e.tickState w groups i) :=
        tickPlain_moves (by simp) (by simp) (by simp) hi hplain (by simp) (fun _ => trivial) fun _ _ => trivial
      exact hm.asked (fun h => h rfl) hs
    · unfold tickState
      dsimp only
      cases hst : (e.at_ i).rt.inst.state with
      | recovery => exact tickRecovery_asked hs
      | friction => exact tickFriction_asked hs
      | dormant =>
        dsimp only
        unfold tickDormant
        split
        next hdue =>
          have hlet : e.letsGo i j = false := by
            rw [not_eq_true] at hfuse
            simpa [wakes, hfuse, hst, hdue] using hkeep
          refine playCard_asked (fallbackDownOf_asked ?_ (asked_mod (fun _ h => h) hs))
          exact letsGo_mod hlet rfl rfl
        · exact hs
      | _ => simp [hst, State.plain] at hplain

/-! ## A pass -/

def groupsSeen (p : Pass) (e : Pid1) : List State :=
  (passRecheck p (loopPressure p.w p.nowMs p.stalled e)).groups.map (·.state)

def passStart (p : Pass) (e : Pid1) : Pid1 :=
  bindTick p.w (timerCatchupTick p.catchup (passRecheck p (loopPressure p.w p.nowMs p.stalled e)))

def beforeTick (p : Pass) (i : Nat) (e : Pid1) : Pid1 :=
  (List.range i).foldl (fun u k => tickService (p.tick k) (e.groupsSeen p) k u) (e.passStart p)

theorem beforeTick_succ (i : Nat) (e : Pid1) :
    e.beforeTick p (i + 1) = tickService (p.tick i) (e.groupsSeen p) i (e.beforeTick p i) := by
  unfold beforeTick
  rw [range_succ, foldl_append]
  rfl

theorem passStart_moves (e : Pid1) : Moves p.uses (fun _ _ => True) (fun _ k => k ≠ .other) e (e.passStart p) :=
  passFront_moves (fun _ => nofun) (fun _ => nofun) (fun _ => nofun) (fun _ => nofun)
    (fun _ => nofun) (fun _ => nofun) p e

theorem beforeTick_moves (e : Pid1) (i : Nat) (hi : i ≤ e.count) :
    Moves p.uses (fun _ _ => True) (fun _ _ => True) e (e.beforeTick p i) := by
  have hstart : Moves p.uses (fun _ _ => True) (fun _ _ => True) e (e.passStart p) :=
    (passStart_moves p e).mono (fun _ _ h => h) fun _ _ _ => trivial
  refine hstart.trans (Moves.loop fun u k hu hk => ?_)
  refine tickService_moves (fun _ => trivial) (fun _ => trivial) (fun _ _ => trivial) trivial trivial trivial
    (.inr (.inl rfl)) ?_ fun _ _ _ _ => trivial
  rw [hu, hstart.count]
  omega

theorem pass_eq (e : Pid1) : ∃ states, e.pass p = passTail p states (e.beforeTick p e.count) := by
  refine ⟨svcStates (passRecheck p (loopPressure p.w p.nowMs p.stalled e)).services, ?_⟩
  unfold beforeTick
  rw [← (passStart_moves p e).count]
  rfl

def dropsAt (p : Pass) (i j : Nat) (e : Pid1) : Bool :=
  (e.beforeTick p i).wakes (p.tick i) i && (e.beforeTick p i).letsGo i j

theorem pass_asked_from {k : Nat} (hk : k ≤ e.count) (hkeep : ∀ i, k ≤ i → i < e.count → e.dropsAt p i j = false)
    (hs : (e.beforeTick p k).Wanted j) : (e.pass p).Wanted j := by
  have hticks : ∀ n, k + n ≤ e.count → (e.beforeTick p (k + n)).Wanted j := by
    intro n
    induction n with
    | zero => exact fun _ => hs
    | succ n ih =>
      intro hn
      rw [← Nat.add_assoc, beforeTick_succ]
      refine tickService_asked ?_ (hkeep (k + n) (by omega) (by omega)) (ih (by omega))
      rw [(beforeTick_moves p e (k + n) (by omega)).count]
      omega
  have hall := hticks (e.count - k) (by omega)
  rw [Nat.add_sub_cancel' hk] at hall
  obtain ⟨states, heq⟩ := pass_eq p e
  rw [heq]
  have htail : Moves p.uses (fun _ _ => True) (fun _ k => k ≠ .other) (e.beforeTick p e.count)
      (passTail p states (e.beforeTick p e.count)) :=
    passTail_moves (fun _ => nofun) (fun _ => nofun) (fun _ => nofun) (fun i => .inr (.inr rfl)) states _
  exact htail.asked (fun h => h rfl) hall

theorem pass_asked (hkeep : ∀ i < e.count, e.dropsAt p i j = false) (hs : e.Wanted j) : (e.pass p).Wanted j := by
  refine pass_asked_from p (Nat.zero_le _) (fun i _ hi => hkeep i hi) ?_
  exact (passStart_moves p e).asked (fun h => h rfl) hs

end Pid1

/-! ## Commands -/

theorem Loc.deck_ctlWaitAbort (w : World) (i : Nat) (l : Loc) : (l.ctlWaitAbort w i).svc.conf = l.svc.conf ∧
      (l.ctlWaitAbort w i).svc.rt.card.fallbackLive = l.svc.rt.card.fallbackLive ∧
        (l.ctlWaitAbort w i).svc.rt.card.standbyUp = l.svc.rt.card.standbyUp := by
  unfold ctlWaitAbort
  dsimp only
  split
  · exact ⟨rfl, rfl, rfl⟩
  · split
    · have hcore := (quiet_stopCmdsBegin w i 2 { l.killTree with svc.rt.fork.state := 0, svc.rt.main.wait := false }).1
      exact ⟨(congrArg conf hcore :), (congrArg (·.rt.card.fallbackLive) hcore :),
        (congrArg (·.rt.card.standbyUp) hcore :)⟩
    · exact ⟨rfl, rfl, rfl⟩

namespace Pid1

theorem ctlRearm_asked (start : Bool) (hkeep : e.letsGo i j = false) (hs : e.Wanted j) :
    (e.ctlRearm w i start).Wanted j := by
  refine fallbackDownOf_asked (letsGo_mod hkeep rfl rfl) (asked_mod (fun s h => ?_) hs)
  exact or_eq_true_iff.mpr (.inl h)

theorem ctlStart_asked (hkeep : e.letsGo i j = false) (hs : e.Wanted j) : (e.ctlStart w i).1.Wanted j := by
  unfold ctlStart
  dsimp only
  split
  · exact ctlRearm_asked true (letsGo_mod hkeep rfl rfl) (asked_mod (fun _ h => h) hs)
  · split
    · exact ctlRearm_asked true hkeep hs
    · exact hs

theorem ctlRestart_asked (hi : i < e.count) (hkeep : e.letsGo i j = false) (hs : e.Wanted j) :
    (e.ctlRestart w i).1.Wanted j := by
  have hopen := asked_mod (i := i)
    (f := fun s => { s.restartPolicyRestore with rt.listen.hold := false }) (fun _ h => h) hs
  unfold ctlRestart
  dsimp only
  split
  · have hm : AnyMoves (fun _ k => k ≠ .other)
        ((e.mod i fun s => { s.restartPolicyRestore with rt.listen.hold := false }).mod i fun s =>
          { s with rt.ctlKilled := true }) _ :=
      stopMain_moves (fun _ => nofun) (fun _ => nofun) w (by simpa using hi)
    exact hm.asked (fun h => h rfl) (asked_mod (fun _ h => h) hopen)
  · have hopened := letsGo_mod (f := fun s => { s.restartPolicyRestore with rt.listen.hold := false }) hkeep rfl rfl
    refine ctlRearm_asked true (letsGo_on hopened ?_ ?_ (by simpa using hi)) (asked_on (fun l h => ?_) hopen)
    · exact (deck_ctlWaitAbort w i _).1
    · exact (deck_ctlWaitAbort w i _).2.1
    · exact (deck_ctlWaitAbort w i l).2.2.trans h

theorem ctlReset_asked (hkeep : e.letsGo i j = false) (hs : e.Wanted j) : (e.ctlReset w i).1.Wanted j := by
  have harmed := ctlRearm_asked (w := w) false
    (letsGo_mod (f := fun s => { s with rt.restartCount := 0, rt.dormantCount := 0 }) hkeep rfl rfl)
    (asked_mod (fun _ h => h) hs)
  unfold ctlReset
  dsimp only
  split
  · exact asked_mod (fun _ h => h) (asked_mod (fun _ h => h) harmed)
  · exact asked_mod (fun _ h => h) harmed

theorem resetOne_asked (hkeep : e.letsGo i j = false) (hs : e.Wanted j) : (e.resetOne w i).Wanted j := by
  have hzero := asked_mod (i := i) (f := fun s => breakerClear
    { s with rt.restartCount := 0, rt.dormantCount := 0, rt.card.next := 0 }) (fun _ h => h) hs
  unfold resetOne
  dsimp only
  split
  · exact asked_mod (fun _ h => h) (ctlRearm_asked false (letsGo_mod hkeep rfl rfl) hzero)
  · split
    · exact asked_mod (fun _ h => h) hzero
    · exact hzero

end Pid1

theorem Moves.live (h : Moves W G (fun _ k => k = .help ∨ k = .stop ∨ k = .other ∨ k = .ctl) e e') :
    (e'.at_ i).rt.card.fallbackLive = (e.at_ i).rt.card.fallbackLive := by
  refine h.invariantAt (P := fun s => s.rt.card.fallbackLive = (e.at_ i).rt.card.fallbackLive) ?_
    (by simp) (by simp) rfl
  rintro u k s s' _ (rfl | rfl | rfl | rfl) ha hs
  · cases ha with
    | quiet hq => exact (congrArg (·.rt.card.fallbackLive) hq :).trans hs
    | tree => exact hs
  · cases ha
    exact hs
  · cases ha with
    | fallbackUp => simpa using hs
    | downStop => exact hs
    | downExcise => exact hs
  · cases ha <;> exact hs

def Cmd.rearms (e : Pid1) (i : Nat) : Cmd → Bool
  | .start name | .restart name | .reset name => e.find name = some i
  | .resetAll => true
  | _ => false

/-- Service `i` lets go of its fallback `j` during the event: it wakes, or is rearmed. -/
def Input.drops (e : Pid1) (i j : Nat) : Input → Bool
  | .pass p => e.dropsAt p i j
  | .ctl _ _ c => c.rearms e i && e.letsGo i j
  | _ => false

namespace Pid1

theorem resetAll_asked (hkeep : ∀ i < e.count, e.letsGo i j = false) (hs : e.Wanted j) :
    ((List.range e.count).foldl (fun u i => resetOne w i u) e).Wanted j := by
  have hall := Run.foldl_range (I := fun n (u : Pid1) => AnyMoves
      (fun _ k => k = .help ∨ k = .stop ∨ k = .other ∨ k = .ctl) e u ∧ u.Wanted j)
    (F := fun u i => resetOne w i u) (n := e.count) ⟨.refl, hs⟩ ?_
  · exact hall.2
  · rintro n u hn ⟨hm, hu⟩
    refine ⟨hm.trans (resetOne_moves (fun _ => .inl rfl) (fun _ => .inr (.inl rfl)) (fun _ _ => .inr (.inr (.inl rfl)))
      (.inr (.inr (.inr rfl))) w (by rwa [hm.count])), resetOne_asked ?_ hu⟩
    rw [letsGo_congr hm.count hm.conf hm.live]
    exact hkeep n hn

theorem ctlCmd_asked (ws : Nat → World) (c : Cmd) (htable : (Input.ctl w ws c).keepsTable = true)
    (hkeep : ∀ i < e.count, Input.drops e i j (.ctl w ws c) = false)
    (hs : e.Wanted j) : (e.ctlCmd w ws c).1.Wanted j := by
  have hnamed : ∀ (name : Bytes) (f : Nat → Pid1 → Pid1 × Bytes), (∀ i, e.find name = some i → (f i e).1.Wanted j) →
        (named name f e).1.Wanted j := by
    intro name f hf
    unfold named
    cases hfind : e.find name with
    | none => exact hs
    | some i => exact hf i hfind
  have hdrop : ∀ i, i < e.count → c.rearms e i = true → e.letsGo i j = false := by
    intro i hi hre
    simpa [Input.drops, hre] using hkeep i hi
  cases c with
  | start name => exact hnamed name _ fun i hi => ctlStart_asked (hdrop i (find_lt hi) (by simp [Cmd.rearms, hi])) hs
  | stop name =>
    refine hnamed name _ fun i hi => ?_
    have hm : AnyMoves (fun _ k => k ≠ .other) e (e.ctlStop w i).1 :=
      ctlStop_moves (fun _ => nofun) (fun _ => nofun) nofun nofun w (find_lt hi)
    exact hm.asked (fun h => h rfl) hs
  | restart name =>
    exact hnamed name _ fun i hi => ctlRestart_asked (find_lt hi) (hdrop i (find_lt hi) (by simp [Cmd.rearms, hi])) hs
  | reset name => exact hnamed name _ fun i hi => ctlReset_asked (hdrop i (find_lt hi) (by simp [Cmd.rearms, hi])) hs
  | resetAll =>
    rw [ctlCmd, ctlResetAll_fst]
    exact resetAll_asked (fun i hi => hdrop i hi rfl) hs
  | add path file => cases htable
  | reload evict c => cases htable
  | pet name => exact hnamed name _ fun i _ => asked_mod (fun _ h => h) hs

theorem step_asked {x : Input} (htable : x.keepsTable = true) (hkeep : ∀ i < e.count, Input.drops e i j x = false)
    (hs : e.Wanted j) : (e.step x).Wanted j := by
  have hm := step_moves e x htable
  cases x with
  | pass p =>
    rw [step]
    simp only [Input.drops] at hkeep
    exact pass_asked p hkeep hs
  | ctl w ws c =>
    rw [step]
    exact ctlCmd_asked ws c htable hkeep hs
  | wake i => exact hm.asked (by simp [Input.kinds]) hs
  | child w pid st => exact hm.asked (by simp [Input.kinds, exitKinds]) hs
  | notify w m => exact hm.asked (by simp [Input.kinds, hearKinds]) hs
  | pause w paused => exact hm.asked (by simp [Input.kinds]) hs
  | hup w ws c => cases htable
  | inotify nowMs => exact hm.asked (by simp [Input.kinds]) hs

end Pid1

/-! ## Loads -/

namespace Pid1

def Asked (x : Bytes) (e : Pid1) : Prop :=
  ∃ j, e.find x = some j ∧ (e.at_ j).rt.card.standbyUp = true

theorem asked_of_add (h : e.Asked x) (w : World) (path : Bytes) (file : Option SvcFile) :
    (e.ctlAdd w path file).1.Asked x := by
  obtain ⟨j, hj, hup⟩ := h
  have hfind := find_ctlAdd hj w path file
  refine ⟨j, hfind, ?_⟩
  rcases ctlAdd_getElem (getElem?_at (find_lt hfind)) with ⟨s, hs, d, g, heq⟩ | ⟨hk, -⟩
  · rw [heq]
    rw [at_eq hs] at hup
    exact hup
  · exact absurd (find_lt hj) (by omega)

theorem asked_of_reload (h : e.Asked x) (r : Reload) (hthere : x ∈ svcNames r.config.services) :
    (e.adoptConfig r.w r.ws r.evict r.config).Asked x := by
  have hsome : ∃ k, (e.adoptConfig r.w r.ws r.evict r.config).find x = some k := by
    rw [find_eq, svcNames_adoptConfig]
    refine Option.isSome_iff_exists.mp ?_
    rw [findIdx?_isSome, any_eq_true]
    exact ⟨x, hthere, by simp⟩
  obtain ⟨k, hk⟩ := hsome
  refine ⟨k, hk, ?_⟩
  have hat := getElem?_at (find_lt hk)
  have hname : ((e.adoptConfig r.w r.ws r.evict r.config).at_ k).conf.name = x := find_name hk
  rw [services_adoptConfig, getElem?_mapIdx, Option.map_eq_some_iff] at hat
  obtain ⟨s, hs, heq⟩ := hat
  rw [← heq] at hname ⊢
  obtain ⟨j, hj, hup⟩ := h
  have hmerged : s.rt.card.standbyUp = true := by
    have hfirst : FirstHas (fun t => t.rt.card.standbyUp = true) x e.services := by
      intro k hk
      rw [← find_eq, hj, Option.some.injEq] at hk
      exact hk ▸ hup
    have hsname : s.conf.name = x := by
      rw [← hname]
      unfold armIfNew
      split
      · rw [conf_timerArm]
      · rfl
    rcases merge_first (fun _ ht => ht) hfirst hs hsname with ⟨hnone, -⟩ | ⟨s0, t, ht, rfl⟩
    · rw [← find_eq, hj] at hnone
      cases hnone
    · obtain ⟨r, hr⟩ := s0.takeOver_rt r.w t
      rw [hr]
      exact ht
  unfold armIfNew
  split
  · exact (congrArg (·.rt.card.standbyUp) (s.core_timerArm _) :).trans hmerged
  · exact hmerged

/-- Nothing in the event takes the request for `x` back: a reload keeps the service, and none that falls
back on it lets go. -/
structure KeepsAsking (x : Bytes) (e : Pid1) (inp : Input) : Prop where
  reload : ∀ r, inp.reload? = some r → reloadError e.services r.config = none → x ∈ svcNames r.config.services
  others : ∀ j, e.find x = some j → ∀ i < e.count, Input.drops e i j inp = false

theorem asked_step {inp : Input} (h : e.Asked x) (hok : KeepsAsking x e inp) : (e.step inp).Asked x := by
  cases hcase : inp.keepsTable with
  | true =>
    obtain ⟨j, hj, hup⟩ := h
    have hm := step_moves e inp hcase
    exact ⟨j, (find_of_moves hm x).trans hj, step_asked hcase (hok.others j hj) hup⟩
  | false =>
    rcases step_loads e hcase with heq | ⟨r, hr, herr, heq⟩ | ⟨w, ws, path, file, -, heq⟩
    · rw [heq]
      exact h
    · rw [heq]
      exact asked_of_reload h r (hok.reload r hr herr)
    · rw [heq]
      exact asked_of_add h w path file

end Pid1

/-! ## The play -/

def Service.down (s : Service) : Bool :=
  s.rt.childPid = 0 && s.rt.inst.state ≠ .fullTrust && s.rt.inst.state ≠ .fundamental

def Service.retrying (s : Service) : Bool :=
  match s.rt.inst.state with
  | .dormant | .recovery | .friction | .settled => true
  | .fundamental | .newProcess | .fullTrust | .perfect | .excised => false

structure Service.Requested (before after : Service) : Prop where
  asked : after.rt.card.standbyUp = true
  queued : before.down = true → after.rt.inst.state = .newProcess

theorem Service.requested_fallbackUp (h : s.retrying = false) : s.Requested s.fallbackUp := by
  refine ⟨by simp, fun hdown => ?_⟩
  simp only [down, and_eq_true, decide_eq_true_eq] at hdown
  unfold fallbackUp
  cases hst : s.rt.inst.state with
  | newProcess => simp [hst]
  | perfect => simp [hdown.1.1, hst, breakerClear]
  | excised => simp [hdown.1.1, hst, breakerClear]
  | fundamental => exact absurd hst hdown.2
  | fullTrust => exact absurd hst hdown.1.2
  | _ => simp [retrying, hst] at h

namespace Pid1

/-- The next card of service `i` is `fallback:x`, and it is free to play it. -/
structure Plays (i : Nat) (x : Bytes) (u : Pid1) : Prop where
  free : (u.at_ i).rt.card.pid = 0
  card : (u.at_ i).conf.cards[(u.at_ i).rt.card.next]? = some (.fallback x)

theorem playCard_fallback {u : Pid1} (hplay : u.Plays i x)
    (hfirst : serviceFallback u.services i = some j) (w : World) : (u.playCard w i).at_ j = (u.at_ j).fallbackUp := by
  obtain ⟨hj, hne, -⟩ := serviceFallback_spec hfirst
  have hbefore : ∀ f : Service → Service, (u.mod i f).at_ j = u.at_ j := fun f => at_put_ne (Ne.symm hne)
  simp only [playCard, hplay.free, hplay.card, hfirst, gt_iff_lt, Nat.lt_irrefl, if_false]
  have hj' : ∀ f : Service → Service, j < (u.mod i f).count := fun f => (count_mod u i f).symm ▸ hj
  rw [mod, at_put_ne (Ne.symm hne), mod, at_put (hj' _), hbefore]

theorem conf_playCard (w : World) (i : Nat) (u : Pid1) :
    (u.playCard w i).count = u.count ∧ ∀ q, ((u.playCard w i).at_ q).conf = (u.at_ q).conf := by
  have hmod : ∀ (v : Pid1) (k : Nat) (f : Service → Service), (∀ s, (f s).conf = s.conf) → ∀ q,
      ((v.mod k f).at_ q).conf = (v.at_ q).conf := by
    intro v k f hf q
    by_cases hq : k = q
    · subst hq
      by_cases hk : k < v.count
      · rw [mod, at_put hk, hf]
      · rw [mod, put_of_le (Nat.not_lt.mp hk)]
    · rw [mod, at_put_ne hq]
  have hup : ∀ s : Service, s.fallbackUp.conf = s.conf := fun s => congrArg Prod.fst s.fallbackUp_keeps.1
  unfold playCard
  dsimp only
  split
  · exact ⟨rfl, fun _ => rfl⟩
  · split
    · exact ⟨rfl, fun _ => rfl⟩
    · split
      · exact ⟨count_mod .., hmod _ _ _ fun _ => rfl⟩
      · refine ⟨by simp, fun q => ?_⟩
        rw [hmod _ i (park w) (fun _ => rfl), hmod _ _ fallbackUp hup]
        refine hmod _ _ _ ?_ q
        exact fun _ => rfl
    · exact ⟨count_mod .., hmod _ _ _ fun _ => rfl⟩

end Pid1

open Pid1 in
/-- In a pass the tick of service `i` plays its card `fallback:x`.  If this is its first fallback card with a service
in the table, and `x` is not between tries of its own, then `x` is requested up; and it stays so in every run in
which no service that falls back on it, the player among them, wakes from its park or is started, restarted or
reset by the operator, and in which no reload drops it. -/
theorem fallback_stays_asked {e u e' : Pid1} {p : Pass} {x : Bytes} {i j : Nat} (hi : i < e.count)
    (htick : tickService (p.tick i) (e.groupsSeen p) i (e.beforeTick p i) = u.playCard (p.tick i) i)
    (hplay : u.Plays i x) (hfind : e.find x = some j) (hfirst : serviceFallback e.services i = some j)
    (hready : (u.at_ j).retrying = false) (hpass : ∀ q, i < q → q < e.count → e.dropsAt p q j = false)
    (hrun : Run.Reaches step (KeepsAsking x) (e.step (.pass p)) e') :
    Service.Requested (u.at_ j) ((u.playCard (p.tick i) i).at_ j) ∧ e'.Asked x := by
  have hmoves := beforeTick_moves p e (i + 1) hi
  rw [beforeTick_succ, htick] at hmoves
  obtain ⟨hcount, hconf⟩ := conf_playCard (p.tick i) i u
  have hfirst' : serviceFallback u.services i = some j := by
    rw [← serviceFallback_congr hcount hconf, fallback_of_moves hmoves i, hfirst]
  have hrequested : Service.Requested (u.at_ j) ((u.playCard (p.tick i) i).at_ j) := by
    rw [playCard_fallback hplay hfirst']
    exact requested_fallbackUp hready
  refine ⟨hrequested, hrun.invariant (Asked x) ?_ fun v inp hv hok => asked_step hv hok⟩
  refine ⟨j, (find_of_moves (step_moves e (.pass p) rfl) x).trans hfind, ?_⟩
  rw [step]
  refine pass_asked_from p hi (fun q hq hlt => hpass q hq hlt) ?_
  rw [beforeTick_succ, htick]
  exact hrequested.asked

def deckFile (name : String) (cards : List String) : SvcFile where
  fname := cstr name ++ cstr ".svc"
  conf := { name := cstr name, exec := cstr "/bin/true", cards := cards.map fun c => .fallback (cstr c) }

def deckBoot (files : List SvcFile) : Pid1 :=
  Pid1.boot (fun _ => {}) (cstr "/cg") { dir := { files := files } }

/-- A pass at a time in which service `i` is forked as process `10 * sec + i`. -/
def deckPass (sec : Nat) : Pass where
  w := { now := ⟨sec, 0⟩ }
  nowMs := sec * 1000
  tick i := { now := ⟨sec, 0⟩, fork := some (10 * sec + i) }

def deckExit (sec pid : Nat) : Input :=
  .child { now := ⟨sec, 0⟩ } pid (.exited 1)

/-- The service `a` with the fallback `x` has failed and is about to be tried again. -/
def failedOnce : Pid1 :=
  [.pass (deckPass 1), deckExit 2 10, .pass (deckPass 3)].foldl Pid1.step
    (deckBoot [deckFile "a" ["x"], deckFile "x" []])

open Pid1 in
theorem fallback_stays_asked_once :
    ((failedOnce.step (.pass (deckPass 4))).step (.pass (deckPass 5))).Asked (cstr "x") := by
  let v := failedOnce.beforeTick (deckPass 4) 0
  let w := (deckPass 4).tick 0
  let voted := v.on w 0 (Loc.schemaStep (serviceProbeF6 w (v.at_ 0)))
  let u := voted.mod 0 fun s =>
    holdRetry { s with rt.inst.state := .newProcess, rt.restartCount := s.rt.restartCount + 1 } w.now
  have hfuse : fuseTrips v.services (v.at_ 0) = false := by decide +kernel
  have hstate : (v.at_ 0).rt.inst.state = .friction := by decide +kernel
  have hvoted : (voted.at_ 0).rt.inst.state = .recovery := by decide +kernel
  have htick : tickService w (failedOnce.groupsSeen (deckPass 4)) 0 v = u.playCard w 0 := by
    simp only [tickService, hfuse, false_eq_true, if_false, tickState, hstate, tickFriction]
    rw [if_pos hvoted]
    rfl
  refine (fallback_stays_asked (j := 1) (by decide +kernel) htick ⟨by decide +kernel, by decide +kernel⟩
    (by decide +kernel) (by decide +kernel) (by decide +kernel) (fun q hq hlt => ?_) (.tail (.refl _) ⟨?_, ?_⟩)).2
  · obtain rfl : q = 1 := by
      have hcount : failedOnce.count = 2 := by decide +kernel
      omega
    decide +kernel
  · exact fun r hr => nomatch hr
  · intro j hj
    obtain rfl : j = 1 := by
      have hfind : (failedOnce.step (.pass (deckPass 4))).find (cstr "x") = some 1 := by decide +kernel
      exact Option.some.inj (hj.symm.trans hfind)
    decide +kernel

def sharedRun : List Input :=
  [.pass (deckPass 1), deckExit 2 10, .pass (deckPass 3), .pass (deckPass 4), deckExit 20 11, .pass (deckPass 21),
    .pass (deckPass 22)]

def twoCardRun : List Input :=
  [.pass (deckPass 1), deckExit 2 10, .pass (deckPass 3), .pass (deckPass 4)]

open Pid1 in
/-- Services `a` and `b` are parked on `x`: when `a` wakes, `x` is no longer asked for, and `b` is still parked.
And a service with the fallbacks `y` and `x` that plays its second card asks for `y` again, not for `x`. -/
theorem fallback_request_lost :
    (let s := deckBoot [deckFile "a" ["x"], deckFile "b" ["x"], deckFile "x" []]
     let e := sharedRun.foldl step s
     let e' := e.step (.pass (deckPass 305))
     Started s ∧ (e.at_ 1).rt.inst.state = .dormant ∧ (e.at_ 1).rt.card.fallbackLive = true ∧
       (e.at_ 2).rt.card.standbyUp = true ∧
       (e'.at_ 1).rt.inst.state = .dormant ∧ (e'.at_ 1).rt.dormantUntil = (e.at_ 1).rt.dormantUntil ∧
       (e'.at_ 2).rt.card.standbyUp = false) ∧
    (let s := deckBoot [deckFile "a" ["y", "x"], deckFile "y" [], deckFile "x" []]
     let e := twoCardRun.foldl step s
     let e' := e.step (.pass (deckPass 305))
     Started s ∧ (e.at_ 0).conf.cards[(e.at_ 0).rt.card.next]? = some (.fallback (cstr "x")) ∧
       (e'.at_ 0).rt.card.next = (e.at_ 0).rt.card.next + 1 ∧ (e'.at_ 0).rt.inst.state = .dormant ∧
       e'.find (cstr "x") = some 2 ∧ (e'.at_ 2).rt.card.standbyUp = false ∧ (e'.at_ 2).rt.inst.state = .excised) := by
  refine ⟨⟨⟨_, _, _, ?_, rfl⟩, ?_⟩, ⟨⟨_, _, _, ?_, rfl⟩, ?_⟩⟩
  · decide +kernel
  · decide +kernel
  · decide +kernel
  · decide +kernel

end SchemaInit.Engine
