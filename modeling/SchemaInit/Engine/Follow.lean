/-
# `SchemaInit.Engine.Follow` — every event is moves along the arcs

The functions that work on the whole table, from `stop_main` to a pass of `engine_run`,
are moves: each follows the arcs of the state diagram, one service at a time.  A lemma
here says which kinds of arcs a function needs, and for which service; the events that
only read or that replace the table (`add`, `reload`) are left out.

    function            its own service        the others
    stop_main           help                   help stop
    fallback_down       help other             help stop
    tick_service        help op tick spawn     help stop other
    bind_tick           help bind stop         help stop
    reap                help op exit done lost
    a command           help op ctl halt       help stop other
-/
import SchemaInit.Engine.Work

namespace SchemaInit.Engine

open Loc Pid1 Service List
open Bool (and_eq_true not_eq_true not_eq_true' or_eq_true)

variable {i j : Nat} {f : Service → Service} {k : Kind} {s s' t : Service} {table table' : List Service} {e e' : Pid1}
    {w : World} {inst : Inst} {groups : List State} {W : Nat → World → Prop} {G : Pid1 → Nat → Prop}
    {K : Nat → Kind → Prop} {p : Pass} {name : Bytes}

open Relation

namespace Moves

theorem work (h : Moves W G K e e') (w : World) {f : Loc → Loc} (hi : i < e'.count)
    (hf : ∀ u : Pid1, u.fixed = e'.fixed → Work W (K i) u i { svc := e'.at_ i } (f { svc := e'.at_ i })) :
    Moves W G K e (e'.on w i f) := by
  refine h.on w hi ?_ fun u hu => (hf u hu).chain
  obtain ⟨new, hnew, hall⟩ := (hf e' rfl).ops
  intro o ho
  rw [hnew] at ho
  exact hall o (by simpa using ho)

theorem arc (h : Moves W G K e e') (hhelp : K i .help) (hk : K i k)
    (ha : i < e'.count → Arc W e' i k (e'.at_ i) t) (hq : (f (e'.at_ i)).core = t.core) :
    Moves W G K e (e'.mod i f) :=
  h.mod fun hi => (ReflTransGen.single ⟨k, hk, ha hi⟩).tail ⟨.help, hhelp, .quiet hq⟩

theorem arcPut (h : Moves W G K e e') (hhelp : K i .help) (hk : K i k)
    (ha : i < e'.count → Arc W e' i k (e'.at_ i) t) (hq : s'.core = t.core) :
    Moves W G K e (e'.put i s') :=
  h.arc (f := fun _ => s') hhelp hk ha hq

theorem quiet (h : Moves W G K e e') (hhelp : K i .help)
    (hq : (f (e'.at_ i)).core = (e'.at_ i).core) : Moves W G K e (e'.mod i f) :=
  h.mod fun _ => .single ⟨.help, hhelp, .quiet hq⟩

theorem mapIdx {f : Nat → Service → Service} (hf : ∀ u i, i < e.count → Chain W (K i) u i (e.at_ i) (f i (e.at_ i))) :
    Moves W G K e { e with services := e.services.mapIdx f } := by
  -- the first n services have changed
  have hn : ∀ n, n ≤ e.count →
      Moves W G K e { e with services := e.services.mapIdx fun i s => if i < n then f i s else s } := by
    intro n
    induction n with
    | zero =>
      intro _
      have hid : (e.services.mapIdx fun i s => if i < 0 then f i s else s) = e.services :=
        ext_getElem? fun k => by simp
      rw [hid]
      exact .refl
    | succ n ih =>
      intro hn
      have hlt : n < e.services.length := hn
      have hprev := ih (by omega)
      have hat : at_ { e with services := e.services.mapIdx fun i s => if i < n then f i s else s } n = e.at_ n := by
        simp [at_, hlt]
      have hnext := hprev.chain (by simpa [Pid1.count] using hlt)
        (show Chain W (K n) _ n _ (f n (e.at_ n)) by rw [hat]; exact hf _ n hn)
      convert hnext using 1
      simp only [Pid1.put, Pid1.mk.injEq, and_true]
      apply ext_getElem? fun k => ?_
      by_cases hk : n = k
      · subst hk
        simp [at_, hlt]
      · have hiff : k < n + 1 ↔ k < n := by omega
        simp only [getElem?_set_ne hk, getElem?_mapIdx, hiff]
  have hall := hn e.count (le_refl _)
  convert hall using 2
  apply ext_getElem? fun k => ?_
  rcases lt_or_ge k e.count with hk | hk
  · simp [hk]
  · have hnone : e.services[k]? = none := getElem?_eq_none hk
    simp [hnone]

end Moves

def State.plain : State → Bool
  | .recovery | .friction | .dormant => false
  | _ => true

/-! ## Stops and fallbacks -/

namespace Pid1

variable (hhelp : ∀ j, K j .help) (hstop : ∀ j, K j .stop)
include hhelp hstop

omit hhelp hstop in
theorem bindBound_bindName {t : Nat} (h : bindBound table s = some t) : s.conf.bindName ≠ [] := by
  unfold bindBound at h
  intro hempty
  simp [hempty] at h

theorem bindStop_moves {stop : Nat → Pid1 → Pid1} (hbind : (e.at_ j).conf.bindName ≠ [])
    (hrest : ∀ u, u.count = e.count → Moves W G K u (stop j u)) : Moves W G K e (e.bindStop stop j) := by
  unfold bindStop
  dsimp only
  split
  · exact .refl
  case isFalse hidle =>
    simp only [or_eq_true, not_or, not_eq_true, decide_eq_true_eq] at hidle
    split
    · exact .refl
    case isFalse hctl =>
      simp only [and_eq_true, not_and, not_eq_true] at hctl
      have hfree : (e.at_ j).rt.ctlKilled = false ∨ (e.at_ j).flags.noRestart = false := by
        cases hk : (e.at_ j).rt.ctlKilled with
        | false => exact .inl rfl
        | true => exact .inr (hctl hk)
      have hheld : Moves W G K e _ := .arc .refl
        (f := fun b => { b.bindHold e.services with rt.restartAt := .zero }) (hhelp j) (hstop j)
        (fun _ => .bindStop hbind hidle.1 hidle.2 hfree) rfl
      exact hheld.trans (hrest _ (by simp))

theorem stopLoop_moves (w : World) (fuel : Nat) (hi : i < e.count) : Moves W G K e (e.stopLoop w fuel i) := by
  induction fuel generalizing e i with
  | zero => exact .refl
  | succ fuel ih =>
    rw [stopLoop]
    split
    · exact .refl
    · have hbinders : Moves W G K e (bindStopBinders (stopLoop w fuel) i e) := by
        refine Moves.loop fun u j hu hj => ?_
        split
        case isTrue hb =>
          simp only [and_eq_true, decide_eq_true_eq] at hb
          exact bindStop_moves hhelp hstop (bindBound_bindName hb.2) fun v hv => ih (by omega)
        · exact .refl
      exact hbinders.work w (by rwa [hbinders.count]) fun u _ => stopOwn_work (hhelp i) w i _

theorem stopMain_moves (w : World) (hi : i < e.count) : Moves W G K e (e.stopMain w i) :=
  stopLoop_moves hhelp hstop w _ hi

omit hhelp hstop in
theorem stopMain_state (w : World) (hi : i < e.count) (k : Nat) :
    ((e.stopMain w i).at_ k).rt.inst.state = (e.at_ k).rt.inst.state := by
  have hm := stopMain_moves (W := fun _ _ => True) (G := fun _ _ => True) (K := fun _ k => k = .help ∨ k = .stop)
    (fun _ => .inl rfl) (fun _ => .inr rfl) w hi
  refine hm.invariantAt (P := fun s => s.rt.inst.state = (e.at_ k).rt.inst.state) (fun u kind s s' _ hk ha hs => ?_)
    (by simp) (by simp) rfl
  rcases hk with rfl | rfl
  · cases ha with
    | quiet hq => exact (congrArg (·.rt.inst.state) hq :).trans hs
    | tree => exact hs
  · cases ha with
    | bindStop => exact hs

/-! ## Fallbacks -/

theorem fallbackDown_moves (hother : K j .other) (w : World) (hj : j < e.count) :
    Moves W G K e (e.fallbackDown w j) := by
  unfold fallbackDown
  dsimp only
  split
  · exact .refl
  case isFalse hup =>
    rw [not_eq_true, Bool.not_eq_false'] at hup
    split
    case isTrue hchild =>
      have hmark : Moves W G K e _ := .arc .refl
        (f := fun s => { s with rt.card.standbyUp := false, flags.noRestart := true, rt.ctlKilled := true })
        (hhelp j) hother (fun _ => .downStop hup (by omega)) rfl
      exact hmark.trans (stopMain_moves hhelp hstop w (by simpa using hj))
    case isFalse hchild => exact .arc .refl (hhelp j) hother (fun _ => .downExcise hup (by omega)) rfl

omit hhelp hstop in
theorem serviceFallback_spec (h : serviceFallback table i = some j) :
    j < table.length ∧ j ≠ i ∧ (i < table.length → serviceIsStandby table j = true) := by
  obtain ⟨c, hc, hfind⟩ := exists_of_findSome?_eq_some h
  cases c with
  | exec cmd => cases hfind
  | fallback name =>
    have hprop := find?_some hfind
    simp only [and_eq_true, decide_eq_true_eq] at hprop
    refine ⟨mem_range.mp (mem_of_find?_eq_some hfind), hprop.1, fun hi => ?_⟩
    refine any_eq_true.mpr ⟨i, mem_range.mpr hi, ?_⟩
    simp only [and_eq_true, decide_eq_true_eq]
    exact ⟨Ne.symm hprop.1, any_eq_true.mpr ⟨_, hc, by simpa using hprop.2.symm⟩⟩

omit hhelp hstop in
theorem serviceFallback_congr (hlen : table'.length = table.length)
    (hconf : ∀ j, (table'.getD j default).conf = (table.getD j default).conf) (i : Nat) :
    serviceFallback table' i = serviceFallback table i := by
  unfold serviceFallback
  simp only [hlen, hconf]

omit hhelp hstop in
theorem fallback_of_moves (h : Moves W G K e e') (i : Nat) :
    serviceFallback e'.services i = serviceFallback e.services i :=
  serviceFallback_congr h.count h.conf i

-- a deck works on one other service: the one it falls back on
variable (hother : ∀ j, serviceFallback e.services i = some j → K j .other)

include hother in
theorem fallbackDownOf_moves (w : World) : Moves W G K e (e.fallbackDownOf w i) := by
  unfold fallbackDownOf
  split
  · cases hfb : serviceFallback e.services i with
    | none => exact .refl
    | some j => exact fallbackDown_moves hhelp hstop (hother j hfb) w (serviceFallback_spec hfb).1
  · exact .refl

omit hhelp hstop in
theorem fallbackDownOf_state (w : World) (i : Nat) (e : Pid1) :
    ((e.fallbackDownOf w i).at_ i).rt.inst.state = (e.at_ i).rt.inst.state := by
  unfold fallbackDownOf
  split
  · cases hfb : serviceFallback e.services i with
    | none => rfl
    | some j =>
      obtain ⟨hj, hne, _⟩ := serviceFallback_spec hfb
      dsimp only [fallbackDown]
      split
      · rfl
      · split
        · rw [stopMain_state w ((count_mod e j _).symm ▸ hj), mod, at_put_ne hne]
        · rw [mod, at_put_ne hne]
  · rfl

omit hstop in
include hother in
theorem fallbackUpOf_moves (hi : i < e.count) : Moves W G K e (e.fallbackUpOf i) := by
  unfold fallbackUpOf
  split
  · cases hfb : serviceFallback e.services i with
    | none => exact .refl
    | some j =>
      exact .arc .refl (hhelp j) (hother j hfb) (fun _ => .fallbackUp ((serviceFallback_spec hfb).2.2 hi)) rfl
  · exact .refl

/-! ## Votes -/

omit hhelp hstop in
theorem probeF9_budget (h : popcount (serviceProbeF9 w table i &&& f9Mask) ≥ shiftThreshold9) :
    (table.getD i default).rt.restartCount < (table.getD i default).conf.maxRestarts := by
  have hfew : ∀ a b c d m n : Bool, [false, a, b, c, d, m, n, n, false, false, false, false].count true < 8 := by decide
  by_contra hspent
  unfold serviceProbeF9 at h
  rw [bits_and_mask (m := f9Mask) (n := 12) rfl rfl, popcount_bits (by simp), decide_eq_false hspent] at h
  exact absurd (hfew ..) (Nat.not_lt.mpr h)

omit hhelp hstop in
theorem probeF6_budget (w : World) (s : Service) :
    popcount (serviceProbeF6 w s &&& f6Mask) ≥ shiftThreshold6 ↔ s.rt.restartCount < s.conf.maxRestarts := by
  have hvote : ∀ b m : Bool, [b, m, false, false, b, true].count true ≥ 3 ↔ b = true := by decide
  unfold serviceProbeF6
  rw [bits_and_mask (m := f6Mask) rfl rfl, popcount_bits (by simp)]
  exact (hvote _ _).trans decide_eq_true_iff

omit hhelp hstop in
theorem probeF8_ne_zero (w : World) (table : List Service) (s : Service) : serviceProbeF8 w table s ≠ 0 := by
  simp only [serviceProbeF8, bits, Bool.toNat_true]
  omega

/-! ## Ticks -/

variable (hop : K i .op) (htick : K i .tick)

omit hstop in
include htick in
theorem cardNext_moves (hst : (e.at_ i).rt.inst.state = .newProcess)
    (hcard : (e.at_ i).rt.card.next < (e.at_ i).conf.cards.length)
    (hf : (f (e.at_ i)).core = core { e.at_ i with rt.card.next := (e.at_ i).rt.card.next + 1 }) :
    Moves W G K e (e.mod i f) :=
  .arc .refl (hhelp i) htick (fun _ => .card hst hcard) hf

omit hstop in
include hother htick in
theorem playCard_moves (w : World) (hi : i < e.count) (hst : (e.at_ i).rt.inst.state = .newProcess) :
    Moves W G K e (e.playCard w i) := by
  unfold playCard
  dsimp only
  split
  · exact .refl
  · cases hc : (e.at_ i).conf.cards[(e.at_ i).rt.card.next]? with
    | none => exact .refl
    | some c =>
      have hcard : (e.at_ i).rt.card.next < (e.at_ i).conf.cards.length := (List.getElem?_eq_some_iff.mp hc).1
      cases c with
      | exec cmd => exact cardNext_moves hhelp htick hst hcard rfl
      | fallback name =>
        cases hfb : serviceFallback e.services i with
        | none => exact cardNext_moves hhelp htick hst hcard rfl
        | some j =>
          obtain ⟨hj, hne, hname⟩ := serviceFallback_spec hfb
          -- the fallback is another service: its start commutes with what the card does here
          have hup : Moves W G K e _ := .arc .refl (hhelp j)
            (hother j hfb) (fun _ => .fallbackUp (hname hi)) rfl
          have hat : (e.mod j fallbackUp).at_ i = e.at_ i := at_put_ne hne
          have hpark := hup.arc (f := fun s => park w { s with
              rt.card.next := s.rt.card.next + 1, rt.card.fallbackLive := true })
            (hhelp i) htick (fun _ => .cardFallback (by rwa [hat]) (by rwa [hat])) rfl
          convert hpark using 1
          dsimp only [mod]
          rw [at_put_ne (Ne.symm hne), at_put_ne hne, at_put_ne hne, at_put hi, put_comm _ _ _ (Ne.symm hne), put_put]

omit hhelp hstop in
theorem on_schemaStep (e : Pid1) (w : World) (flags : Nat) :
    e.on w i (Loc.schemaStep flags) = e.put i { e.at_ i with rt.inst := schemaStep (e.at_ i).rt.inst flags } :=
  rfl

omit hhelp hstop in
theorem core_inst (s : Service) (inst : Inst) :
    core { s with rt.inst := inst } = core { s with rt.inst.state := inst.state } :=
  rfl

omit hhelp hstop in
theorem schemaStep_recovery (h : inst.state = .recovery) (flags : Nat) :
    (schemaStep inst flags).state = if popcount (flags &&& f9Mask) ≥ shiftThreshold9 then .settled else .friction := by
  simp [schemaStep, h]

omit hhelp hstop in
theorem schemaStep_friction (h : inst.state = .friction) (flags : Nat) :
    (schemaStep inst flags).state = if popcount (flags &&& f6Mask) ≥ shiftThreshold6 then .recovery else .excised := by
  simp [schemaStep, h]

omit hhelp hstop in
theorem schemaStep_newProcess (h : inst.state = .newProcess) (flags : Nat) :
    (schemaStep inst flags).state = .fullTrust ∨ (schemaStep inst flags).state = .recovery := by
  simp only [schemaStep, h]
  split
  · exact .inl rfl
  · exact .inr rfl

omit hhelp hstop in
/-- A service in `RECOVERY` is queued again within its budget, or goes on to `FRICTION`. -/
theorem tickRecovery_cases (w : World) (hi : i < e.count) (hst : (e.at_ i).rt.inst.state = .recovery) :
    ∃ inst, (e.at_ i).rt.restartCount < (e.at_ i).conf.maxRestarts ∧
        e.tickRecovery w i = (e.put i { e.at_ i with rt.inst := inst }).requeue w i ∨
      inst.state = .friction ∧ e.tickRecovery w i = e.put i { e.at_ i with rt.inst := inst } := by
  have hstep := schemaStep_recovery hst (serviceProbeF9 w e.services i)
  refine ⟨schemaStep (e.at_ i).rt.inst (serviceProbeF9 w e.services i), ?_⟩
  unfold tickRecovery
  simp only [on_schemaStep, at_put hi]
  split at hstep
  case isTrue hvote => exact .inl ⟨probeF9_budget hvote, if_pos hstep⟩
  · exact .inr ⟨hstep, if_neg (by simp [hstep])⟩

omit hhelp hstop in
/-- A service in `FRICTION` is queued again within its budget, or its verdict is given. -/
theorem tickFriction_cases (w : World) (hi : i < e.count) (hst : (e.at_ i).rt.inst.state = .friction) :
    ∃ inst, (e.at_ i).rt.restartCount < (e.at_ i).conf.maxRestarts ∧
        e.tickFriction w i = (e.put i { e.at_ i with rt.inst := inst }).requeue w i ∨
      (e.at_ i).conf.maxRestarts ≤ (e.at_ i).rt.restartCount ∧ inst.state = .excised ∧
        e.tickFriction w i = fallbackUpOf i (e.on w i fun _ =>
          { killTree { svc := { e.at_ i with rt.inst := inst } } with
            svc := (killTree { svc := { e.at_ i with rt.inst := inst } }).svc.frictionVerdict w }) := by
  have hstep := schemaStep_friction hst (serviceProbeF6 w (e.at_ i))
  refine ⟨schemaStep (e.at_ i).rt.inst (serviceProbeF6 w (e.at_ i)), ?_⟩
  unfold tickFriction
  simp only [on_schemaStep, at_put hi]
  split at hstep
  case isTrue hvote => exact .inl ⟨(probeF6_budget w _).mp hvote, if_pos hstep⟩
  case isFalse hvote =>
    refine .inr ⟨not_lt.mp fun hbudget => hvote ((probeF6_budget w _).mpr hbudget), hstep, ?_⟩
    rw [if_neg (by simp [hstep]), if_pos hstep, put_on _ _ _ hi]

omit hstop in
include hother htick in
theorem requeue_moves (w : World) (hi : i < e.count)
    (hst : (e.at_ i).rt.inst.state = .recovery ∨ (e.at_ i).rt.inst.state = .friction)
    (hbudget : (e.at_ i).rt.restartCount < (e.at_ i).conf.maxRestarts) (inst : Inst) :
    Moves W G K e ((e.put i { e.at_ i with rt.inst := inst }).requeue w i) := by
  have hretry : Moves W G K e _ := .arc .refl (f := fun s => holdRetry
      { s with rt.inst := { inst with state := .newProcess }, rt.restartCount := s.rt.restartCount + 1 } w.now)
    (hhelp i) htick (fun _ => .retry hst hbudget) rfl
  have hcard := hretry.trans (playCard_moves hhelp (fun j hj => hother j (fallback_of_moves hretry i ▸ hj)) htick w
    (by simpa using hi) (by
      dsimp only [mod]
      rw [at_put hi]
      rfl))
  unfold requeue
  dsimp only [mod] at hcard ⊢
  rwa [at_put hi, put_put]

omit hstop in
include hother htick in
theorem tickRecovery_moves (w : World) (hi : i < e.count) (hst : (e.at_ i).rt.inst.state = .recovery) :
    Moves W G K e (e.tickRecovery w i) := by
  obtain ⟨inst, ⟨hbudget, heq⟩ | ⟨hstate, heq⟩⟩ := tickRecovery_cases w hi hst
  · rw [heq]
    exact requeue_moves hhelp hother htick w hi (.inl hst) hbudget inst
  · rw [heq]
    exact .arcPut .refl (hhelp i) htick (fun _ => .friction hst) (by rw [core_inst, hstate])

omit hhelp hstop in
theorem frictionVerdict_arc (w : World) (hst : s.rt.inst.state = .friction)
    (hspent : s.conf.maxRestarts ≤ s.rt.restartCount) (hs : s'.core = core { s with rt.inst.state := .excised }) :
    ∃ t, TickArc (W i) e i s t ∧ (s'.frictionVerdict w).core = t.core ∧ t.conf = s.conf ∧
      t.rt.cgroupPath = s.rt.cgroupPath := by
  have hflags : s'.flags = s.flags := (congrArg flags hs :)
  have hconf : s'.conf = s.conf := (congrArg conf hs :)
  have hcount : s'.rt.dormantCount = s.rt.dormantCount := (congrArg (·.rt.dormantCount) hs :)
  unfold frictionVerdict park
  split
  case isTrue hend =>
    rw [hflags, hconf, hcount] at hend
    simp only [and_eq_true, not_eq_true', decide_eq_true_eq] at hend
    refine ⟨_, .breaker hst hspent hend.1.1 hend.1.2 hend.2, ?_, rfl, rfl⟩
    exact (congrArg (fun t : Service => { t with
      rt.dormantCount := t.rt.dormantCount + 1, rt.circuitBroken := true, rt.exciseReason := .breaker }) hs :)
  case isFalse hend =>
    rw [hflags, hconf, hcount] at hend
    simp only [and_eq_true, not_eq_true', decide_eq_true_eq, not_and] at hend
    refine ⟨_, .park hst hspent ?_, ?_, rfl, rfl⟩
    · by_cases hcrit : s.flags.critical = true
      · exact .inl hcrit
      · by_cases hexc : s.conf.noExcise = true
        · exact .inr (.inl hexc)
        · rw [not_eq_true] at hcrit hexc
          exact .inr (.inr (UInt8.not_le.mp (hend ⟨hcrit, hexc⟩)))
    · exact (congrArg (fun t : Service => { t with
        rt.dormantCount := t.rt.dormantCount + 1, rt.inst.state := .dormant }) hs :)

omit hstop in
include hother hop htick in
theorem tickFriction_moves (w : World) (hi : i < e.count) (hst : (e.at_ i).rt.inst.state = .friction) :
    Moves W G K e (e.tickFriction w i) := by
  obtain ⟨inst, ⟨hbudget, heq⟩ | ⟨hspent, hstate, heq⟩⟩ := tickFriction_cases w hi hst
  · rw [heq]
    exact requeue_moves hhelp hother htick w hi (.inr hst) hbudget inst
  · rw [heq]
    suffices hverdict : Moves W G K e _ from hverdict.trans
      (fallbackUpOf_moves hhelp (fun j hj => hother j (fallback_of_moves hverdict i ▸ hj)) (by simpa using hi))
    refine Moves.refl.work w hi fun u _ => ?_
    have hexcised : core { (killTree { svc := e.at_ i }).svc with rt.inst := inst } =
        core { (killTree { svc := e.at_ i }).svc with rt.inst.state := .excised } := by
      rw [core_inst, hstate]
    obtain ⟨t, ha, hq, hconf, hpath⟩ := frictionVerdict_arc w
      (s := (killTree { svc := e.at_ i }).svc) hst hspent hexcised
    exact (Work.killTree (hhelp i) hop _).trans (.reach (hhelp i) htick ha hq rfl hconf hpath)

include hother htick in
theorem tickDormant_moves (w : World) (hi : i < e.count) (hst : (e.at_ i).rt.inst.state = .dormant) :
    Moves W G K e (e.tickDormant w i) := by
  unfold tickDormant
  split
  · have hwake : Moves W G K e _ := .arc .refl
      (f := fun s => { s with rt.inst.state := .newProcess, rt.restartCount := s.rt.restartCount + 1 })
      (hhelp i) htick (fun _ => .wakeUp hst) rfl
    have hdown := hwake.trans (fallbackDownOf_moves hhelp hstop
      (fun j hj => hother j (fallback_of_moves hwake i ▸ hj)) w)
    refine hdown.trans (playCard_moves hhelp
      (fun j hj => hother j (fallback_of_moves hdown i ▸ hj)) htick w (by rwa [hdown.count]) ?_)
    rw [fallbackDownOf_state, mod, at_put hi]
  · exact .refl

variable (hspawn : K i .spawn)

omit hstop in
include htick hspawn in
theorem tickLaunch_moves (w : World) (hi : i < e.count)
    (hst : (e.at_ i).rt.inst.state = .newProcess) (he' : e' = e.put i s) (hs : s.core = (e.at_ i).core) (hg : G e i) :
    Moves W G K e (e'.tickLaunch w i) := by
  subst he'
  have hsst : s.rt.inst.state = .newProcess := (congrArg (·.rt.inst.state) hs :).trans hst
  unfold tickLaunch
  simp only [on_schemaStep, at_put hi, put_put]
  generalize hflags : serviceProbeF8 w (e.put i s).services s = flags
  rcases schemaStep_newProcess hsst flags with hstep | hstep
  · rw [if_pos hstep]
    have hvoted : core { s with rt.inst := schemaStep s.rt.inst flags } =
        core { e.at_ i with rt.inst.state := .fullTrust } := by
      rw [core_inst, hstep]
      exact (congrArg (fun t : Service => { t with rt.inst.state := .fullTrust }) hs :)
    generalize hs' : ({ s with rt.inst := schemaStep s.rt.inst flags } : Service) = s' at hvoted ⊢
    have hname : s.conf.name = s'.conf.name := by rw [← hs']
    have hspawns := tickSpawn_spawns (e := e) w (l := { svc := s' }) hvoted
    obtain ⟨t, harc, hq⟩ := hspawns.arc
    obtain ⟨new, hnew, hall⟩ := hspawns.ops
    have hm : Moves W G K e _ := .spawn .refl w hi hspawn hst hvoted hg harc hq hall
    have hat : (e.spawnCall i s').at_ i = s' := at_put hi
    rw [hname]
    show Moves W G K e ((e.spawnCall i s').on w i (tickSpawn w e.cgroupRoot))
    dsimp only [on]
    rw [hat, hnew]
    exact hm
  · rw [if_neg (by simp [hstep])]
    refine .arcPut .refl (hhelp i) htick (fun _ => .blocked hst) ?_
    rw [core_inst, hstep]
    exact (congrArg (fun t : Service => { t with rt.inst.state := .recovery }) hs :)

omit hstop in
include hop htick hspawn in
theorem tickConditions_moves (w : World) (hi : i < e.count)
    (hst : (e.at_ i).rt.inst.state = .newProcess) (hg : G e i) : Moves W G K e (e.tickConditions w i) := by
  unfold tickConditions
  dsimp only
  split
  · exact .quiet .refl (hhelp i) rfl
  · have hwait : Moves W G K e _ := .quiet .refl (f := fun s => { s with sockWaiting := false }) (hhelp i) rfl
    have hi' : i < (e.mod i fun s => { s with sockWaiting := false }).count := by simpa using hi
    have hat : (e.mod i fun s => { s with sockWaiting := false }).at_ i =
      { e.at_ i with sockWaiting := false } := at_put hi
    split
    · refine hwait.work w hi' fun u _ => ?_
      rw [hat]
      exact conditionSkip_work (hhelp i) hop htick hst
    · split
      case isTrue hhold =>
        refine hwait.work w hi' fun u _ => ?_
        rw [hat]
        exact tickListen_work (hhelp i) htick hst hhold
      · exact tickLaunch_moves hhelp htick hspawn w hi hst rfl rfl hg

/-- The deck lets the service be launched: a standby is asked for, and a fallback is gone. -/
structure MayLaunch (e : Pid1) (i : Nat) : Prop where
  standby : (e.at_ i).rt.card.standbyUp = true ∨ serviceIsStandby e.services i = false
  fallback : (e.at_ i).rt.card.fallbackLive = true → e.fallbackRuns i = false

omit hstop in
include hop htick hspawn in
theorem tickNewProcess_moves (w : World) (hi : i < e.count) (hst : (e.at_ i).rt.inst.state = .newProcess)
    (hg : serviceDepsReady e.services groups (e.at_ i) = true → e.MayLaunch i → G e i) :
    Moves W G K e (e.tickNewProcess w groups i) := by
  unfold tickNewProcess
  dsimp only
  split
  · exact .refl
  · split
    case isTrue hdown =>
      simp only [and_eq_true, not_eq_true'] at hdown
      exact .arc .refl (hhelp i) htick (fun _ => .standby hst hdown.1 hdown.2) rfl
    case isFalse hup =>
      split
      · exact .refl
      case isFalse hruns =>
        split
        · exact .refl
        case isFalse hready =>
          rw [not_eq_true, Bool.not_eq_false'] at hready
          refine tickConditions_moves hhelp hop htick hspawn w hi hst (hg hready ⟨?_, ?_⟩)
          · simpa [Classical.or_iff_not_imp_left] using hup
          · intro hlive
            simpa [hlive] using hruns

omit hstop hspawn in
include hop htick in
theorem tickPlain_moves (hi : i < e.count)
    (hplain : (e.at_ i).rt.inst.state.plain = true) (hspawn : (e.at_ i).rt.inst.state = .newProcess → K i .spawn)
    (hw : (e.at_ i).rt.inst.state ≠ .newProcess → W i w)
    (hg : serviceDepsReady e.services groups (e.at_ i) = true → e.MayLaunch i → G e i) :
    Moves W G K e (e.tickState w groups i) := by
  unfold tickState
  dsimp only
  cases hst : (e.at_ i).rt.inst.state with
  | newProcess => exact tickNewProcess_moves hhelp hop htick (hspawn hst) w hi hst hg
  | fullTrust =>
    exact Moves.refl.work w hi fun u _ =>
      tickFullTrust_work (hhelp i) hop htick (hw (by simp [hst])) (probeF8_ne_zero _ _ _) i hst
  | recovery => simp [hst, State.plain] at hplain
  | friction => simp [hst, State.plain] at hplain
  | dormant => simp [hst, State.plain] at hplain
  | fundamental =>
    exact Moves.refl.work w hi fun u _ => tickFundamental_work (hhelp i) hop htick (hw (by simp [hst])) i hst
  | perfect =>
    dsimp only
    split
    case isTrue hdue =>
      exact .arc .refl (hhelp i) htick (fun _ => .timerFire hst (Bool.and_eq_true_iff.mp hdue).1) rfl
    · exact .refl
  | excised => exact .refl
  | settled => exact .refl

omit hspawn in
include hother hop htick in
/-- The `switch` of `tick_service`.  Only a service in `NEW_PROCESS` is spawned, and only
one in another state can have its budget refreshed. -/
theorem tickState_moves (hi : i < e.count) (hspawn : (e.at_ i).rt.inst.state = .newProcess → K i .spawn)
    (hw : (e.at_ i).rt.inst.state ≠ .newProcess → W i w)
    (hg : serviceDepsReady e.services groups (e.at_ i) = true → e.MayLaunch i → G e i) :
    Moves W G K e (e.tickState w groups i) := by
  by_cases hplain : (e.at_ i).rt.inst.state.plain = true
  · exact tickPlain_moves hhelp hop htick hi hplain hspawn hw hg
  · unfold tickState
    dsimp only
    cases hst : (e.at_ i).rt.inst.state with
    | recovery => exact tickRecovery_moves hhelp hother htick w hi hst
    | friction => exact tickFriction_moves hhelp hother hop htick w hi hst
    | dormant => exact tickDormant_moves hhelp hstop hother htick w hi hst
    | _ => simp [hst, State.plain] at hplain

include hother hop htick hspawn in
theorem tickService_moves (hw : W i w) (hi : i < e.count)
    (hg : ∀ u, Moves W G K e u → serviceDepsReady u.services groups (u.at_ i) = true → u.MayLaunch i → G u i) :
    Moves W G K e (e.tickService w groups i) := by
  unfold tickService
  split
  case isTrue hfuse =>
    simp only [fuseTrips, and_eq_true] at hfuse
    have hblown : Moves W G K e _ := Moves.refl.work w hi fun u _ =>
      tickFuse_work (hhelp i) hop htick hfuse.1.1
    exact hblown.trans (tickState_moves hhelp hstop (fun j hj => hother j (fallback_of_moves hblown i ▸ hj)) hop htick
      (by simpa using hi) (fun _ => hspawn) (fun _ => hw) (hg _ hblown))
  · exact tickState_moves hhelp hstop hother hop htick hi (fun _ => hspawn) (fun _ => hw) (hg e .refl)

end Pid1

/-! ## Binders -/

namespace Pid1

variable (hhelp : ∀ i, K i .help) (hstop : ∀ i, K i .stop) (hbind : K j .bind)
include hhelp hstop hbind

omit hstop in
theorem bindReleased_moves (hname : (e.at_ j).conf.bindName = []) : Moves W G K e (e.mod j bindReleased) := by
  by_cases hheld : (e.at_ j).rt.bind.held = true
  · by_cases hback : (e.at_ j).rt.inst.state = .excised ∧ (e.at_ j).rt.exciseReason = .bind ∧ (e.at_ j).rt.childPid = 0
    · refine .arc .refl (hhelp j) hbind (fun _ => .start hheld hback.2.2 (.inr hback.1)) ?_
      simp [bindReleased, hheld, hback, bindStart]
    · refine .arc .refl (hhelp j) hbind (fun _ => .release hname hheld) ?_
      have hno : ((decide ((e.at_ j).rt.inst.state = .excised) && decide ((e.at_ j).rt.exciseReason = .bind)) &&
          decide ((e.at_ j).rt.childPid = 0)) = false := by
        simpa [Bool.and_eq_false_iff, and_assoc] using hback
      simp [bindReleased, hheld, hno]
  · exact .quiet .refl (hhelp j) (by simp [bindReleased, hheld])

theorem bindMissing_moves (w : World) (hj : j < e.count) (hname : (e.at_ j).conf.bindName ≠ [])
    (hbound : bindBound e.services (e.at_ j) = none) : Moves W G K e (e.bindMissing w j) := by
  unfold bindMissing
  dsimp only
  split
  · exact .refl
  case isFalse hheld =>
    rw [not_eq_true] at hheld
    split
    · exact bindStop_moves hhelp hstop hname fun u hu => stopMain_moves hhelp hstop w (by omega)
    case isFalse hchild =>
      have hchild : (e.at_ j).rt.childPid = 0 := by omega
      by_cases hst : (e.at_ j).rt.inst.state = .excised
      · refine .arc .refl (hhelp j) hbind (fun _ => .hold hname hheld hchild hst hbound) ?_
        simp only [hst, ne_eq, not_true_eq_false, if_false]
        rfl
      · refine .arc .refl (hhelp j) hbind (fun _ => .excise hname hheld hchild (.inl hbound)) ?_
        simp only [hst, ne_eq, not_false_eq_true, if_true]
        rfl

theorem bindEdge_moves (w : World) (hj : j < e.count) (hname : (e.at_ j).conf.bindName ≠ []) (t : Nat) :
    Moves W G K e (e.bindEdge w j t) := by
  unfold bindEdge
  dsimp only
  split
  · exact .refl
  · split
    · exact bindStop_moves hhelp hstop hname fun u hu => stopMain_moves hhelp hstop w (by omega)
    case isFalse hchild =>
      split
      case isTrue hdied =>
        simp only [and_eq_true, not_eq_true', diedInGrace] at hdied
        exact .arc .refl (hhelp j) hbind (fun _ => .reclassify hname hdied.1.1 (by omega) hdied.2.1.1) rfl
      · exact .refl

omit hstop in
theorem bindFollow_moves (hname : (e.at_ j).conf.bindName ≠ []) (bd : Service) :
    Moves W G K e (e.mod j (bindFollow e.services bd)) := by
  have hexcise : ∀ s : Service, s.conf.bindName ≠ [] → Chain W (K j) e j s
      (if !s.rt.bind.held && s.rt.childPid = 0 && s.rt.inst.state = .newProcess && bd.rt.inst.state.gone then
        bindExcise e.services s else s) := by
    intro s hs
    split
    case isTrue hgone =>
      simp only [and_eq_true, not_eq_true', decide_eq_true_eq] at hgone
      refine (ReflTransGen.single ⟨.bind, hbind, .excise hs hgone.1.1.1 hgone.1.1.2 (.inr hgone.1.2)⟩).tail
        ⟨.help, hhelp j, .quiet ?_⟩
      rfl
    · exact .refl
  refine Moves.refl.mod fun _ => ?_
  unfold bindFollow
  split
  case isTrue hback =>
    simp only [and_eq_true, decide_eq_true_eq] at hback
    refine ReflTransGen.trans (.single ⟨.bind, hbind, .start hback.1.1.1 hback.1.2 (.inl hname)⟩) ?_
    exact hexcise _ hname
  · exact hexcise _ hname

theorem bindTickOne_moves (w : World) (hj : j < e.count) : Moves W G K e (e.bindTickOne w j) := by
  unfold bindTickOne
  split
  case isTrue hname => exact bindReleased_moves hhelp hbind (by simpa using hname)
  case isFalse hname =>
    have hname : (e.at_ j).conf.bindName ≠ [] := by simpa using hname
    cases hbound : bindBound e.services (e.at_ j) with
    | none => exact bindMissing_moves hhelp hstop hbind w hj hname hbound
    | some t =>
      have hedge := bindEdge_moves (W := W) (G := G) hhelp hstop hbind w hj hname t
      refine hedge.trans (bindFollow_moves hhelp hbind ?_ _)
      rwa [hedge.conf j]

end Pid1

/-! ## A pass -/

theorem serviceIsStandby_congr (hlen : table'.length = table.length)
    (hconf : ∀ j, (table'.getD j default).conf = (table.getD j default).conf) (i : Nat) :
    serviceIsStandby table' i = serviceIsStandby table i := by
  unfold serviceIsStandby
  simp only [hlen, hconf]

namespace Moves

theorem standby (h : Moves W G K e e') (i : Nat) : serviceIsStandby e'.services i = serviceIsStandby e.services i :=
  serviceIsStandby_congr h.count h.conf i

theorem each {ws : Nat → World} {f : World → Nat → Loc → Loc}
    (hf : ∀ u i l, Work W (K i) u i l (f (ws i) i l)) : Moves W G K e (e.each ws f) :=
  loop fun u i hu hi => Moves.refl.work (ws i) (by rwa [hu]) fun v _ => hf v i _

theorem map (hf : ∀ u i s, Chain W (K i) u i s (f s)) : Moves W G K e { e with services := e.services.map f } := by
  have hm : Moves W G K e _ := mapIdx fun u i _ => hf u i _
  have hmap : e.services.mapIdx (fun _ => f) = e.services.map f := ext_getElem? fun k => by simp
  rwa [hmap] at hm

end Moves

namespace Pid1

theorem sameRest_pressureStep (nowMs : Nat) (stalled : Bool) (e : Pid1) :
    SameRest e (pressureStep nowMs stalled e).1 := by
  unfold pressureStep
  split
  · split <;> exact ⟨rfl, rfl, rfl, rfl, rfl, rfl⟩
  · split <;> exact ⟨rfl, rfl, rfl, rfl, rfl, rfl⟩

theorem executeSurvivalPosture_moves (hfreeze : ∀ i, K i .freeze) (w : World) (under : Bool) (e : Pid1) :
    Moves W G K e (e.executeSurvivalPosture w under) := by
  refine Moves.loop fun u i hu hi => ?_
  dsimp only
  split
  · exact .refl
  case isFalse hchild =>
    split
    · exact .freeze .refl w under (by rwa [hu]) (hfreeze i) hchild
    · exact .refl

theorem loopPressure_moves (hfreeze : ∀ i, K i .freeze) (w : World) (nowMs : Nat) (stalled : Bool) (e : Pid1) :
    Moves W G K e (e.loopPressure w nowMs stalled) := by
  have hrest : Moves W G K e _ := Moves.refl.rest (sameRest_pressureStep nowMs stalled e)
  unfold loopPressure
  generalize pressureStep nowMs stalled e = r at hrest
  obtain ⟨u, posture⟩ := r
  cases posture with
  | none => exact hrest
  | enter => exact hrest.trans (executeSurvivalPosture_moves hfreeze w true u)
  | exit => exact hrest.trans (executeSurvivalPosture_moves hfreeze w false u)

variable (hhelp : ∀ i, K i .help) (hop : ∀ i, K i .op)
include hhelp

include hop in
theorem passRecheck_moves (htick : ∀ i, K i .tick) (hw : ∀ i, W i (p.recheck i)) (e : Pid1) :
    Moves W G K e (e.passRecheck p) := by
  unfold passRecheck
  split
  · refine (Moves.refl.rest ?_).trans (.each fun u i l => readyRecheck_work (hhelp i) (hop i) (htick i) (hw i) i)
    exact ⟨rfl, rfl, rfl, rfl, rfl, rfl⟩
  · exact .refl

theorem timerCatchupTick_moves (ws : Nat → World) (e : Pid1) : Moves W G K e (e.timerCatchupTick ws) := by
  unfold timerCatchupTick
  split
  · exact .refl
  · split
    · exact .refl
    · refine Moves.mapIdx fun u i _ => .single ⟨.help, hhelp i, .quiet ?_⟩
      dsimp only
      split
      · rfl
      · split
        · unfold timerCatchupCheck
          split
          · rfl
          · split <;> rfl
        · rfl

theorem bindTick_moves (hstop : ∀ i, K i .stop) (hbind : ∀ i, K i .bind) (w : World) (e : Pid1) :
    Moves W G K e (e.bindTick w) :=
  Moves.loop fun u i hu hi => bindTickOne_moves hhelp hstop (hbind i) w (by rwa [hu])

include hop in
theorem passTicks_moves (hstop : ∀ i, K i .stop) (hother : ∀ i, K i .other) (htick : ∀ i, K i .tick)
    (hspawn : ∀ i, K i .spawn) (hw : ∀ i, W i (p.tick i)) (groups : List State)
    (hg : ∀ u i, serviceDepsReady u.services groups (u.at_ i) = true → G u i) (e : Pid1) :
    Moves W G K e (e.passTicks p groups) :=
  Moves.loop fun u i hu hi => tickService_moves hhelp hstop (fun j _ => hother j)
    (hop i) (htick i) (hspawn i) (hw i) (by rwa [hu])
    fun u _ hready _ => hg u i hready

theorem serviceWatchdogTick_moves (w : World) (e : Pid1) : Moves W G K e (e.serviceWatchdogTick w) :=
  .each fun _ i _ => watchdogTick_work (hhelp i) _ w

include hop in
theorem passTail_moves (hmonitor : ∀ i, K i .monitor) (hw : ∀ i, W i (p.monitor i)) (states : List State)
    (e : Pid1) : Moves W G K e (e.passTail p states) := by
  have hkept : SameRest e { e with fdstore := e.fdstore.filter fun x => e.fdstoreKeep x.svc } :=
    ⟨rfl, rfl, rfl, rfl, rfl, rfl⟩
  have hmonitored : ∀ u : Pid1, Moves W G K u (u.each p.monitor monitor) := fun u =>
    .each fun u i l => monitor_work (hhelp i) (hop i) (hmonitor i) (hw i) i
  have hmon := (Moves.refl.rest hkept).trans (hmonitored _)
  have hevict := (hmon.groups states).evictionTick p.w
  have hdog := hevict.trans (serviceWatchdogTick_moves hhelp p.w _)
  exact hdog.trans (.map fun u i s => .single ⟨.help, hhelp i, .quiet rfl⟩)

end Pid1

/-! ## Events -/

def tickKinds (j i : Nat) (k : Kind) : Prop :=
  k = .help ∨ k = .stop ∨ k = .other ∨ (i = j ∧ (k = .op ∨ k = .tick ∨ k = .spawn))

theorem Pid1.tickService_kinds (hw : W j w) (groups : List State)
    (hj : j < e.count) : Moves W (fun _ _ => True) (tickKinds j) e (e.tickService w groups j) :=
  tickService_moves (fun _ => .inl rfl) (fun _ => .inr (.inl rfl)) (fun _ _ => .inr (.inr (.inl rfl)))
    (.inr (.inr (.inr ⟨rfl, .inl rfl⟩))) (.inr (.inr (.inr ⟨rfl, .inr (.inl rfl)⟩)))
    (.inr (.inr (.inr ⟨rfl, .inr (.inr rfl)⟩))) hw hj fun _ _ _ _ => trivial

def Kind.inPass : Kind → Bool
  | .exit | .done | .lost | .hear | .wake | .ctl | .halt | .pause => false
  | _ => true

/-- The answers of a pass on which the restart budget of service `i` may be refreshed. -/
def Pass.uses (p : Pass) (i : Nat) (w : World) : Prop :=
  w = p.recheck i ∨ w = p.tick i ∨ w = p.monitor i

theorem Pid1.passFront_moves (hfreeze : ∀ i, K i .freeze)
    (hhelp : ∀ i, K i .help) (hop : ∀ i, K i .op) (htick : ∀ i, K i .tick)
    (hstop : ∀ i, K i .stop) (hbind : ∀ i, K i .bind)
    (p : Pass) (e : Pid1) :
    Moves p.uses G K e
      (bindTick p.w (timerCatchupTick p.catchup (passRecheck p (loopPressure p.w p.nowMs p.stalled e)))) := by
  refine (loopPressure_moves hfreeze p.w p.nowMs p.stalled e).trans ?_
  refine (passRecheck_moves hhelp hop htick (fun i => .inl rfl) _).trans ?_
  refine (timerCatchupTick_moves hhelp p.catchup _).trans ?_
  exact bindTick_moves hhelp hstop hbind p.w _

theorem Pid1.pass_moves (hg : ∀ u i groups, serviceDepsReady u.services groups (u.at_ i) = true → G u i)
    (p : Pass) (e : Pid1) :
    Moves p.uses G (fun _ k => k.inPass = true) e (e.pass p) := by
  -- every kind of a pass is allowed for every service
  have hk : ∀ k : Kind, k.inPass = true →
    ∀ _ : Nat, (fun (_ : Nat) (k : Kind) => k.inPass = true) 0 k := fun _ hk _ => hk
  have hfront := passFront_moves (G := G) (K := fun _ k => k.inPass = true)
    (hk .freeze rfl) (hk .help rfl) (hk .op rfl) (hk .tick rfl)
    (hk .stop rfl) (hk .bind rfl) p e
  refine (hfront.trans ?_).trans
    (passTail_moves (hk .help rfl) (hk .op rfl) (hk .monitor rfl) (fun i => .inr (.inr rfl)) _ _)
  exact passTicks_moves (hk .help rfl) (hk .op rfl) (hk .stop rfl) (hk .other rfl) (hk .tick rfl) (hk .spawn rfl)
    (fun i => .inr (.inl rfl)) _ (fun u i => hg u i _) _

namespace Pid1

/-- What the exit of a process moves: the service whose card, runner or main process it is. -/
def exitKinds (e : Pid1) (pid : Nat) (st : WaitStatus) (i : Nat) (k : Kind) : Prop :=
  ((e.at_ i).rt.card.pid = pid ∨ (e.at_ i).rt.stop.pid = pid ∨ (e.at_ i).rt.childPid = pid) ∧ (k = .help ∨ k = .op) ∨
    (e.at_ i).rt.childPid = pid ∧ (k = .exit ∨ (k = .done ∧ (e.at_ i).succeeds st = true) ∨
      (k = .lost ∧ st.clean = true ∧ (e.at_ i).rt.cgroupPath = []))

theorem reap_moves (w : World) {pid : Nat} (hpid : pid ≠ 0) (st : WaitStatus) (e : Pid1) :
    Moves (fun _ v => v = w) (fun _ _ => True) (e.exitKinds pid st) e (e.reap w pid st) := by
  unfold reap
  cases hfind : e.services.findIdx? fun s => s.rt.card.pid = pid || s.rt.stop.pid = pid || s.rt.childPid = pid with
  | none => exact .evictionReaped .refl w pid
  | some i =>
    obtain ⟨hi, hwhose, _⟩ := findIdx?_eq_some_iff_getElem.mp hfind
    have hat : e.services[i] = e.at_ i := (at_eq (getElem?_eq_getElem hi)).symm
    have hwhose : (e.at_ i).rt.card.pid = pid ∨ (e.at_ i).rt.stop.pid = pid ∨ (e.at_ i).rt.childPid = pid := by
      simpa [hat, or_assoc] using hwhose
    have hhelp : e.exitKinds pid st i .help := .inl ⟨hwhose, .inl rfl⟩
    dsimp only
    split
    · exact .quiet .refl hhelp rfl
    case isFalse hcard =>
      split
      · exact Moves.refl.work w hi fun u _ => stopCmdsDone_work hhelp w i _
      case isFalse hstop =>
        have hchild : (e.at_ i).rt.childPid = pid := (hwhose.resolve_left hcard).resolve_left hstop
        exact Moves.refl.work w hi fun u _ => reapMain_work hhelp (.inl ⟨hwhose, .inr rfl⟩)
          (.inr ⟨hchild, .inl rfl⟩) rfl e.services i pid st
          (fun hdone => .inr ⟨hchild, .inr (.inl ⟨rfl, hdone⟩)⟩)
          (fun hclean hcg => .inr ⟨hchild, .inr (.inr ⟨rfl, hclean, hcg⟩)⟩) (by rwa [hchild])

def hearKinds (e : Pid1) (w : World) (m : Msg) (i : Nat) (k : Kind) : Prop :=
  k = .help ∨ ((e.at_ i).hears w m = true ∧ (k = .op ∨ (k = .hear ∧ m.mainpid ≠ 0)))

theorem notifyPoll_moves (w : World) (m : Msg) (e : Pid1) :
    Moves (fun _ _ => False) (fun _ _ => True) (e.hearKinds w m) e (e.notifyPoll w m) := by
  unfold notifyPoll
  split
  · split
    · exact .refl
    · have hseen : SameRest e { e with busReporterSeen := true } := ⟨rfl, rfl, rfl, rfl, rfl, rfl⟩
      refine (Moves.refl.rest hseen).trans (.map fun u i s => .single ⟨.help, .inl rfl, .quiet ?_⟩)
      split <;> rfl
  · cases hfind : e.services.findIdx? (hears w m) with
    | none => exact .refl
    | some i =>
      obtain ⟨hi, hhears, _⟩ := findIdx?_eq_some_iff_getElem.mp hfind
      rw [show e.services[i] = e.at_ i from (at_eq (getElem?_eq_getElem hi)).symm] at hhears
      have hrest : SameRest e (hearStores w i m e) := by
        unfold hearStores
        dsimp only
        split <;> exact ⟨rfl, rfl, rfl, rfl, rfl, rfl⟩
      have hstore := Moves.refl (W := fun _ _ => False) (G := fun _ _ => True) (K := e.hearKinds w m) |>.rest hrest
      dsimp only
      split
      · exact hstore.work w (by rwa [hstore.count]) fun u _ =>
          hear_work (.inl rfl) (.inr ⟨hhears, .inl rfl⟩) w m fun hm => .inr ⟨hhears, .inr ⟨rfl, hm⟩⟩
      · exact hstore

theorem notifyPauseTrack_moves (w : World) (paused : Bool) (e : Pid1) :
    Moves (fun _ _ => False) (fun _ _ => True) (fun _ k => k = .help ∨ k = .pause) e (e.notifyPauseTrack w paused) := by
  unfold notifyPauseTrack
  split
  · exact .refl
  · split
    · exact .rest .refl ⟨rfl, rfl, rfl, rfl, rfl, rfl⟩
    · have hclear : SameRest e { e with notifyPausedSince := 0 } := ⟨rfl, rfl, rfl, rfl, rfl, rfl⟩
      refine (Moves.refl.rest hclear).trans (.map fun u i s => ?_)
      have hquiet : Chain (fun _ _ => False) (fun k => k = .help ∨ k = .pause) u i s (if s.rt.childPid > 0 then
            { s with
              rt.watchdog.lastPet := w.now
              rt.watchdog.abortAt := if s.rt.watchdog.abortAt.isSet then w.now else s.rt.watchdog.abortAt }
          else s) := by
        split
        · exact .single ⟨.help, .inl rfl, .quiet rfl⟩
        · exact .refl
      unfold resumeOne
      dsimp only
      revert hquiet
      generalize (if s.rt.childPid > 0 then _ else s) = t
      intro hquiet
      split
      case isTrue hwaits =>
        simp only [and_eq_true, decide_eq_true_eq] at hwaits
        exact hquiet.tail ⟨.pause, .inr rfl, .resume _ hwaits.1.1.1 (by omega)⟩
      · exact hquiet

theorem socketWake_moves (i : Nat) (e : Pid1) :
    Moves (fun _ _ => False) (fun _ _ => True) (fun j k => j = i ∧ (k = .help ∨ k = .wake)) e (e.socketWake i) := by
  unfold socketWake
  split
  case isTrue hwait =>
    simp only [listenWaiting, and_eq_true, decide_eq_true_eq, ne_eq] at hwait
    exact .arc .refl ⟨rfl, .inl rfl⟩ ⟨rfl, .inr rfl⟩ (fun _ => .wake hwait.2 hwait.1.2 hwait.1.1) rfl
  · exact .refl

end Pid1

/-! ### Commands -/

namespace Pid1

variable (hhelp : ∀ j, K j .help) (hstop : ∀ j, K j .stop)
  (hother : ∀ j, serviceFallback e.services i = some j → K j .other) (hctl : K i .ctl)
include hhelp hstop hother hctl

theorem ctlRearm_moves (w : World) (start : Bool) : Moves W G K e (e.ctlRearm w i start) := by
  suffices harmed : Moves W G K e _ from harmed.trans
    (fallbackDownOf_moves hhelp hstop (fun j hj => hother j (fallback_of_moves harmed i ▸ hj)) w)
  refine .arc .refl (hhelp i) hctl (fun _ => .rearm (start && serviceIsStandby e.services i) ?_) ?_
  · exact fun hup => (Bool.and_eq_true_iff.mp hup).2
  · rfl

theorem ctlRearm_after {u : Pid1} (h : Moves W G K e u) (w : World) (start : Bool) :
    Moves W G K e (u.ctlRearm w i start) :=
  h.trans (ctlRearm_moves hhelp hstop (fun j hj => hother j (fallback_of_moves h i ▸ hj)) hctl w start)

omit hhelp hstop hother hctl in
theorem ctlRearm_state (w : World) (start : Bool) (hi : i < e.count) :
    ((e.ctlRearm w i start).at_ i).rt.inst.state = (e.at_ i).rt.inst.state := by
  unfold ctlRearm
  rw [fallbackDownOf_state, mod, at_put hi]
  rfl

theorem ctlStart_moves (w : World) : Moves W G K e (e.ctlStart w i).1 := by
  unfold ctlStart
  dsimp only
  split
  case isTrue hst =>
    simp only [or_eq_true, decide_eq_true_eq] at hst
    exact ctlRearm_after hhelp hstop hother hctl (.arc .refl (hhelp i) hctl (fun _ => .start hst) rfl) w true
  · split
    · exact ctlRearm_moves hhelp hstop hother hctl w true
    · exact .refl

variable (hop : K i .op)

omit hother hctl in
/-- A command that changes a service by `f` and stops its main process. -/
theorem markedStop_moves {f : Service → Service} (hk : K i k) (w : World)
    (hi : i < e.count) (ha : Arc W e i k (e.at_ i) t)
    (hq : core { f (e.at_ i) with rt.ctlKilled := true } = t.core) :
    Moves W G K e (((e.mod i f).mod i fun s => { s with rt.ctlKilled := true }).stopMain w i) := by
  have htwice : ((e.mod i f).mod i fun s => { s with rt.ctlKilled := true }) =
      e.mod i fun s => { f s with rt.ctlKilled := true } := by
    rw [mod, mod, at_put hi, put_put, mod]
  rw [htwice]
  exact .trans (.arc .refl (hhelp i) hk (fun _ => ha) hq) (stopMain_moves hhelp hstop w (by simpa using hi))

omit hother hctl in
include hop in
theorem ctlStop_moves (hhalt : K i .halt) (w : World) (hi : i < e.count) : Moves W G K e (e.ctlStop w i).1 := by
  unfold ctlStop
  dsimp only
  have hat : (e.mod i heldDown).at_ i = (e.at_ i).heldDown := at_put hi
  rw [hat]
  split
  case isTrue hchild => exact markedStop_moves hhelp hstop hhalt w hi (.stop (Nat.pos_iff_ne_zero.mp hchild)) rfl
  case isFalse hchild =>
    rw [mod, put_on _ _ _ hi]
    dsimp only
    refine Moves.refl.work w hi fun u _ => ?_
    obtain ⟨kill, n, hn, hq, hops⟩ := ctlWaitAbort_spec w i { svc := (e.at_ i).heldDown }
    have hchild : (e.at_ i).rt.childPid = 0 := by simpa [heldDown] using hchild
    cases kill with
    | false =>
      refine .reach (hhelp i) hhalt (.stopIdle hchild n hn) ?_ hops rfl rfl
      exact (congrArg (fun s : Service => { s with rt.inst.state := .excised, rt.exciseReason := .none }) hq :)
    | true =>
      have hchild : (killTree { svc := e.at_ i }).svc.rt.childPid = 0 := hchild
      refine (Work.killTree (hhelp i) hop { svc := e.at_ i }).trans
        (.reach (hhelp i) hhalt (.stopIdle hchild n hn) ?_ hops rfl rfl)
      exact (congrArg (fun s : Service => { s with rt.inst.state := .excised, rt.exciseReason := .none }) hq :)

include hop in
theorem ctlRestart_moves (w : World) (hi : i < e.count) : Moves W G K e (e.ctlRestart w i).1 := by
  unfold ctlRestart
  dsimp only
  have hat : (e.mod i fun s => { s.restartPolicyRestore with rt.listen.hold := false }).at_ i =
      { (e.at_ i).restartPolicyRestore with rt.listen.hold := false } := at_put hi
  rw [hat]
  split
  case isTrue hchild => exact markedStop_moves hhelp hstop hctl w hi (.restart (Nat.pos_iff_ne_zero.mp hchild)) rfl
  case isFalse hchild =>
    rw [mod, put_on _ _ _ hi]
    refine ctlRearm_after hhelp hstop hother hctl (Moves.refl.work w hi fun u _ => ?_) w true
    obtain ⟨kill, n, hn, hq, hops⟩ := ctlWaitAbort_spec w i
      { svc := { (e.at_ i).restartPolicyRestore with rt.listen.hold := false } }
    have hchild : (e.at_ i).rt.childPid = 0 := by simpa [restartPolicyRestore] using hchild
    cases kill with
    | false =>
      refine .reach (hhelp i) hctl (.restartIdle hchild n hn) ?_ hops rfl rfl
      exact (congrArg (fun s : Service => { s with rt.inst.state := .newProcess, rt.restartCount := 0 }) hq :)
    | true =>
      have hchild : (killTree { svc := e.at_ i }).svc.rt.childPid = 0 := hchild
      refine (Work.killTree (hhelp i) hop { svc := e.at_ i }).trans
        (.reach (hhelp i) hctl (.restartIdle hchild n hn) ?_ hops rfl rfl)
      exact (congrArg (fun s : Service => { s with rt.inst.state := .newProcess, rt.restartCount := 0 }) hq :)

theorem ctlReset_moves (w : World) : Moves W G K e (e.ctlReset w i).1 := by
  have hzero : Moves W G K e _ := .arc .refl
    (f := fun s => { s with rt.restartCount := 0, rt.dormantCount := 0 }) (hhelp i) hctl (fun _ => .reset) rfl
  have harmed := ctlRearm_after hhelp hstop hother hctl hzero w false
  have hpolicy := harmed.arc (hhelp i) hctl (fun _ => .policy) rfl
  unfold ctlReset
  dsimp only
  split
  case isTrue hst =>
    simp only [or_eq_true, decide_eq_true_eq, or_assoc] at hst
    exact hpolicy.arc (f := fun s => { s with rt.inst.state := .newProcess }) (hhelp i) hctl (fun _ => .queue hst) rfl
  · exact hpolicy

theorem resetOne_moves (w : World) (hi : i < e.count) : Moves W G K e (e.resetOne w i) := by
  have hzero : Moves W G K e _ := .arc .refl
    (f := fun s => breakerClear _)
    (hhelp i) hctl (fun _ => .resetAll) rfl
  unfold resetOne
  dsimp only
  split
  case isTrue hfailed =>
    have hst : (e.at_ i).rt.inst.state = .excised ∨ (e.at_ i).rt.inst.state = .dormant ∨
        (e.at_ i).rt.inst.state = .perfect := by
      unfold failed at hfailed
      split at hfailed
      · cases hfailed
      · simp only [or_eq_true, and_eq_true, decide_eq_true_eq] at hfailed
        rcases hfailed with hd | hx
        · exact .inr (.inl hd)
        · exact .inl hx.1.1
    have harmed := ctlRearm_after hhelp hstop hother hctl hzero w false
    have hkeep := ctlRearm_state w false (e := e.mod i fun s =>
      breakerClear { s with rt.restartCount := 0, rt.dormantCount := 0, rt.card.next := 0 }) (by simpa using hi)
    have hsame : ((e.mod i fun s =>
        breakerClear { s with rt.restartCount := 0, rt.dormantCount := 0, rt.card.next := 0 }).at_ i).rt.inst.state =
        (e.at_ i).rt.inst.state := by
      rw [mod, at_put hi]
      rfl
    rw [hsame] at hkeep
    refine harmed.mod fun _ => ?_
    refine (ReflTransGen.single ⟨.ctl, hctl, .policy⟩).tail ⟨.ctl, hctl, .queue ?_⟩
    rw [← hkeep] at hst
    exact hst
  · split
    · exact hzero.quiet (hhelp i) rfl
    · exact hzero

end Pid1

/-! ### Every event -/

/-- The answers on which an event may refresh the restart budget of service `i`. -/
def Input.uses : Input → Nat → World → Prop
  | .child w _ _, _, v => v = w
  | .pass p, i, v => p.uses i v
  | _, _, _ => False

def Cmd.target : Cmd → Option Bytes
  | .start name | .stop name | .restart name | .reset name => some name
  | _ => none

/-- What a command moves: the service it names, and binders and fallbacks it stops. -/
def Cmd.kinds (e : Pid1) (c : Cmd) (i : Nat) (k : Kind) : Prop :=
  k = .help ∨ k = .stop ∨ k = .other ∨
    match c with
    | .resetAll => k = .ctl
    | .stop name => e.find name = some i ∧ (k = .op ∨ k = .halt)
    | c => (∃ name, c.target = some name ∧ e.find name = some i) ∧ (k = .op ∨ k = .ctl)

theorem Cmd.kinds_cases {c : Cmd} (h : c.kinds e i k) :
    k = .help ∨ k = .stop ∨ k = .other ∨ k = .op ∨ k.byOperator = true := by
  rcases h with h | h | h | h
  · exact .inl h
  · exact .inr (.inl h)
  · exact .inr (.inr (.inl h))
  · split at h
    · exact .inr (.inr (.inr (.inr (by rw [h]; rfl))))
    · rcases h.2 with h | h
      · exact .inr (.inr (.inr (.inl h)))
      · exact .inr (.inr (.inr (.inr (by rw [h]; rfl))))
    · rcases h.2 with h | h
      · exact .inr (.inr (.inr (.inl h)))
      · exact .inr (.inr (.inr (.inr (by rw [h]; rfl))))

def Input.kinds (e : Pid1) : Input → Nat → Kind → Prop
  | .wake j, i, k => i = j ∧ (k = .help ∨ k = .wake)
  | .child _ pid st, i, k => e.exitKinds pid st i k
  | .ctl _ _ c, i, k => c.kinds e i k
  | .notify w m, i, k => e.hearKinds w m i k
  | .pause _ _, _, k => k = .help ∨ k = .pause
  | .pass _, _, k => k.inPass = true
  | .hup _ _ _, _, _ => False
  | .inotify _, _, _ => False

def Input.keepsTable : Input → Bool
  | .hup _ _ _ => false
  | .ctl _ _ (.add _ _) => false
  | .ctl _ _ (.reload _ _) => false
  | _ => true

namespace Pid1

theorem find_lt (h : e.find name = some i) : i < e.count :=
  (findIdx?_eq_some_iff_getElem.mp h).1

theorem named_moves {f : Nat → Pid1 → Pid1 × Bytes} (hf : ∀ i, e.find name = some i → Moves W G K e (f i e).1) :
    Moves W G K e (named name f e).1 := by
  unfold named
  cases hfind : e.find name with
  | none => exact .refl
  | some i => exact hf i hfind

theorem ctlResetAll_fst (w : World) (e : Pid1) :
    (e.ctlResetAll w).1 = (List.range e.count).foldl (fun u i => resetOne w i u) e := by
  have hfold : ∀ (l : List Nat) (r : Pid1 × Nat), (l.foldl (fun (r : Pid1 × Nat) i =>
      (resetOne w i r.1, if (r.1.at_ i).failed then r.2 + 1 else r.2)) r).1 =
      l.foldl (fun u i => resetOne w i u) r.1 := by
    intro l
    induction l with
    | nil => exact fun _ => rfl
    | cons j l ih => exact fun r => ih _
  exact hfold _ _

theorem ctlCmd_moves (w : World) (ws : Nat → World) (c : Cmd) (e : Pid1)
    (hc : (Input.ctl w ws c).keepsTable = true) : Moves W G (c.kinds e) e (e.ctlCmd w ws c).1 := by
  have hhelp : ∀ j, c.kinds e j .help := fun _ => .inl rfl
  have hstop : ∀ j, c.kinds e j .stop := fun _ => .inr (.inl rfl)
  have hother : ∀ j, c.kinds e j .other := fun _ => .inr (.inr (.inl rfl))
  cases c with
  | start name =>
    refine named_moves fun i hi => ctlStart_moves hhelp hstop (fun j _ => hother j) ?_ w
    exact .inr (.inr (.inr ⟨⟨name, rfl, hi⟩, .inr rfl⟩))
  | stop name =>
    refine named_moves fun i hi => ctlStop_moves hhelp hstop ?_ ?_ w (find_lt hi)
    · exact .inr (.inr (.inr ⟨hi, .inl rfl⟩))
    · exact .inr (.inr (.inr ⟨hi, .inr rfl⟩))
  | restart name =>
    refine named_moves fun i hi => ctlRestart_moves hhelp hstop (fun j _ => hother j) ?_ ?_ w (find_lt hi)
    · exact .inr (.inr (.inr ⟨⟨name, rfl, hi⟩, .inr rfl⟩))
    · exact .inr (.inr (.inr ⟨⟨name, rfl, hi⟩, .inl rfl⟩))
  | reset name =>
    refine named_moves fun i hi => ctlReset_moves hhelp hstop (fun j _ => hother j) ?_ w
    exact .inr (.inr (.inr ⟨⟨name, rfl, hi⟩, .inr rfl⟩))
  | resetAll =>
    have hctl : ∀ j, Cmd.resetAll.kinds e j .ctl := fun _ => .inr (.inr (.inr rfl))
    rw [ctlCmd, ctlResetAll_fst]
    exact Moves.loop fun u i hu hi => resetOne_moves hhelp hstop (fun j _ => hother j) (hctl i) w (by rwa [hu])
  | add path file => cases hc
  | reload evict c => cases hc
  | pet name =>
    refine named_moves fun i hi => ?_
    dsimp only
    exact .quiet .refl (hhelp i) rfl

theorem step_moves (e : Pid1) (x : Input) (hx : x.keepsTable = true) :
    Moves x.uses (fun _ _ => True) (x.kinds e) e (e.step x) := by
  cases x with
  | wake i => exact socketWake_moves i e
  | child w pid st =>
    rw [step]
    split
    · exact .refl
    case isFalse hpid => exact reap_moves w hpid st e
  | hup w ws c => cases hx
  | ctl w ws c => exact ctlCmd_moves w ws c e hx
  | notify w m => exact notifyPoll_moves w m e
  | pause w paused => exact notifyPauseTrack_moves w paused e
  | inotify nowMs =>
    rw [step, readyInotifyDrain]
    split
    · exact .rest .refl ⟨rfl, rfl, rfl, rfl, rfl, rfl⟩
    · exact .refl
  | pass p => exact pass_moves (fun _ _ _ _ => trivial) p e

end Pid1

end SchemaInit.Engine
