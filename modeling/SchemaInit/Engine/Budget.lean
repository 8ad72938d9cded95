/-
# `SchemaInit.Engine.Budget` — how often a failing service is spawned

A service that keeps failing is retried on its restart budget, then parked at most four
times and a fifth time given up; each card of its deck can park it once more.  While its
runs stay short and the operator does nothing, none of this is ever given back, so

    spawnsLeft = restarts left + parks left + cards left  (+ 1 on the way to a spawn)

never grows, and each call of `service_spawn` takes one away: in all there are at most
`max(max_restarts, 0) + 5 + card_count` calls (`spawns_le_bound`).  A service that is given
up and whose run is over stays given up.

Not so for a socket service that must not be restarted: the failure of such a service is
its idle exit, it waits for the next connection and is spawned again for each
(`no_restart_socket_respawns`).
-/
import SchemaInit.Engine.OneChild

namespace SchemaInit.Engine

open Pid1 Service
open UInt8 (reduceToNat toNat_add)

variable {s s' : Service} {st : State} {V W : World → Prop} {e : Pid1} {i b n : Nat} {k : Kind} {x : Input}

/-! ## What is left -/

def State.outside : State → Bool
  | .fullTrust | .fundamental | .excised => false
  | _ => true

def State.pending : State → Nat
  | .newProcess | .dormant | .perfect => 1
  | _ => 0

namespace Service

def left (s : Service) : Nat :=
  (s.conf.maxRestarts - s.rt.restartCount).toNat + (4 - s.rt.dormantCount.toNat) +
    (s.conf.cards.length - s.rt.card.next)

def spawnsLeft (s : Service) : Nat :=
  s.left + s.rt.inst.state.pending

def inRun (s : Service) : Bool :=
  s.rt.childPid ≠ 0 || s.rt.fork.state < 0 || s.rt.main.wait

theorem inRun_eq_false : s.inRun = false ↔ s.rt.childPid = 0 ∧ ¬ s.rt.fork.state < 0 ∧ s.rt.main.wait = false := by
  simp [inRun, and_assoc]

end Service

def Conf.spawnBound (c : Conf) : Nat :=
  c.maxRestarts.toNat + 5 + c.cards.length

/-! ## The services the bound is for -/

/-- Not critical, not `no_excise`, no timer, no `bind=`; a socket service may be restarted.
A `.svc` file has at most `MAX_CARDS` cards. -/
structure Ordinary (c : Conf) (f : Flags) : Prop where
  critical : f.critical = false
  noExcise : c.noExcise = false
  timer : f.timer = false
  bind : c.bindName = []
  cards : c.cards.length ≤ maxCards
  socket : c.listen = [] ∨ (c.noRestartCfg = false ∧ c.allowedSlotMin < 0)

namespace Service

structure Plain (s : Service) : Prop where
  ordinary : Ordinary s.conf s.flags
  held : s.rt.bind.held = false
  standby : s.rt.card.standbyUp = false
  ctl : s.rt.ctlKilled = false
  closed : s.conf.listen = [] → s.rt.listen.open_ = 0
  policy : s.conf.listen ≠ [] → s.flags.noRestart = false

/-- A run is in one phase at a time, in a state for it; the parks and the deck are counted. -/
structure Course (s : Service) : Prop where
  running : s.rt.childPid ≠ 0 → s.rt.main.wait = false ∧ ¬ s.rt.fork.state < 0
  forking : s.rt.fork.state < 0 → s.rt.main.wait = false
  states : s.inRun = true → s.rt.inst.state = .fullTrust ∨ s.rt.inst.state = .fundamental ∨ s.rt.inst.state = .excised
  parks : s.rt.inst.state ≠ .excised ∨ s.inRun = true → s.rt.dormantCount.toNat ≤ 4 + s.rt.card.next
  deck : s.rt.card.next ≤ s.conf.cards.length

namespace Plain

theorem same (h : s.Plain)
    (hs : (s'.conf, s'.flags, s'.rt.bind.held, s'.rt.card.standbyUp, s'.rt.ctlKilled, s'.rt.listen.open_) =
      (s.conf, s.flags, s.rt.bind.held, s.rt.card.standbyUp, s.rt.ctlKilled, s.rt.listen.open_)) : s'.Plain := by
  simp only [Prod.mk.injEq] at hs
  obtain ⟨hconf, hflags, hheld, hstandby, hctl, hopen⟩ := hs
  refine ⟨?_, hheld.trans h.held, hstandby.trans h.standby, hctl.trans h.ctl, ?_, ?_⟩
  · rw [hconf, hflags]
    exact h.ordinary
  · rw [hconf, hopen]
    exact h.closed
  · rw [hconf, hflags]
    exact h.policy

theorem cleared (h : s.Plain) {n : Nat} (hn : n = s.rt.listen.open_ ∨ n = s.conf.listen.length) :
    (s.cleared n).Plain := by
  refine ⟨h.ordinary, h.held, h.standby, rfl, fun hnone => ?_, h.policy⟩
  have hnone : s.conf.listen = [] := hnone
  rcases hn with hn | hn
  · exact hn.trans (h.closed hnone)
  · show n = 0
    simpa [hnone] using hn

theorem not_idle (h : s.Plain) (hopen : s.rt.listen.open_ ≠ 0) : s.flags.noRestart = false :=
  h.policy fun hnone => hopen (h.closed hnone)

end Plain

namespace Course

theorem of_over (hover : s.inRun = false)
    (hparks : s.rt.inst.state ≠ .excised → s.rt.dormantCount.toNat ≤ 4 + s.rt.card.next)
    (hdeck : s.rt.card.next ≤ s.conf.cards.length) : s.Course := by
  obtain ⟨hchild, hfork, hwait⟩ := inRun_eq_false.mp hover
  refine ⟨fun hne => absurd hchild hne, fun hneg => absurd hneg hfork, ?_, ?_, hdeck⟩
  · simp [hover]
  · simpa [hover] using hparks

theorem inRun_of_state (h : s.Course) (hst : s.rt.inst.state = st) (hout : st.outside = true) : s.inRun = false := by
  rw [← Bool.not_eq_true]
  intro hrun
  rcases h.states hrun with h1 | h1 | h1
  · simp [← hst, h1, State.outside] at hout
  · simp [← hst, h1, State.outside] at hout
  · simp [← hst, h1, State.outside] at hout

end Course

def mayRefresh (s : Service) : Kind → Prop
  | .exit | .tick => s.inRun = true
  | .monitor => s.rt.main.wait = true
  | _ => False

/-- With `n` calls of `service_spawn` made, the bound leaves room for those that can come. -/
structure Budget (b : Nat) (s : Service) (n : Nat) : Prop where
  plain : s.Plain
  course : s.Course
  room : n + s.spawnsLeft ≤ b

def counters (s : Service) : Conf × Int × UInt8 × Nat :=
  (s.conf, s.rt.restartCount, s.rt.dormantCount, s.rt.card.next)

theorem spawnsLeft_of_counters (hleft : s'.counters = s.counters)
    (hst : s'.rt.inst.state.pending ≤ s.rt.inst.state.pending) : s'.spawnsLeft ≤ s.spawnsLeft := by
  simp only [counters, Prod.mk.injEq] at hleft
  obtain ⟨hconf, hrc, hdc, hnext⟩ := hleft
  rw [spawnsLeft, spawnsLeft, left, left, hconf, hrc, hdc, hnext]
  omega

namespace Budget

variable (h : s.Budget b n)
include h

theorem room_of_counters (hleft : s'.counters = s.counters)
    (hst : s'.rt.inst.state.pending ≤ s.rt.inst.state.pending) : n + s'.spawnsLeft ≤ b := by
  have hroom := h.room
  have hless := spawnsLeft_of_counters hleft hst
  omega

theorem course_of_counters (hleft : s'.counters = s.counters)
    (hon : s.rt.inst.state ≠ .excised ∨ s.inRun = true) :
    s'.rt.dormantCount.toNat ≤ 4 + s'.rt.card.next ∧ s'.rt.card.next ≤ s'.conf.cards.length := by
  simp only [counters, Prod.mk.injEq] at hleft
  rw [hleft.2.2.1, hleft.2.2.2, hleft.1]
  exact ⟨h.course.parks hon, h.course.deck⟩

theorem ended (hrun : s.inRun = true) (hover : s'.inRun = false) (hplain : s'.Plain)
    (hleft : s'.counters = s.counters) (hst : s'.rt.inst.state.pending = 0) : s'.Budget b n := by
  obtain ⟨hparks, hdeck⟩ := h.course_of_counters hleft (.inr hrun)
  exact ⟨hplain, .of_over hover (fun _ => hparks) hdeck, h.room_of_counters hleft (by omega)⟩

theorem exited (hchild : s.rt.childPid ≠ 0) (hgone : s'.rt.childPid = 0)
    (hphase : (s'.rt.fork.state, s'.rt.main.wait) = (s.rt.fork.state, s.rt.main.wait)) (hplain : s'.Plain)
    (hleft : s'.counters = s.counters) (hst : s'.rt.inst.state.pending = 0) : s'.Budget b n := by
  simp only [Prod.mk.injEq] at hphase
  obtain ⟨hwait, hfork⟩ := h.course.running hchild
  refine h.ended (by simp [inRun, hchild]) (inRun_eq_false.mpr ⟨hgone, ?_, ?_⟩) hplain hleft hst
  · rwa [hphase.1]
  · rwa [hphase.2]

theorem goesOn (hrun : s.inRun = true)
    (hrunning : s'.rt.childPid ≠ 0 → s'.rt.main.wait = false ∧ ¬ s'.rt.fork.state < 0)
    (hforking : s'.rt.fork.state < 0 → s'.rt.main.wait = false) (hplain : s'.Plain) (hleft : s'.counters = s.counters)
    (hst : s'.rt.inst.state = s.rt.inst.state ∨ s'.rt.inst.state = .fundamental) : s'.Budget b n := by
  have hstates : s'.rt.inst.state = .fullTrust ∨ s'.rt.inst.state = .fundamental ∨ s'.rt.inst.state = .excised := by
    rcases hst with hst | hst
    · rw [hst]
      exact h.course.states hrun
    · exact .inr (.inl hst)
  have hnone : s'.rt.inst.state.pending = 0 := by
    rcases hstates with hst | hst | hst <;> rw [hst] <;> rfl
  obtain ⟨hparks, hdeck⟩ := h.course_of_counters hleft (.inr hrun)
  exact ⟨hplain, ⟨hrunning, hforking, fun _ => hstates, fun _ => hparks, hdeck⟩, h.room_of_counters hleft (by omega)⟩

theorem moved (hst : s.rt.inst.state = st) (hout : st.outside = true)
    (hphase : (s'.rt.childPid, s'.rt.fork.state, s'.rt.main.wait) = (s.rt.childPid, s.rt.fork.state, s.rt.main.wait))
    (hplain : s'.Plain) (hparks : s'.rt.inst.state ≠ .excised → s'.rt.dormantCount.toNat ≤ 4 + s'.rt.card.next)
    (hdeck : s'.rt.card.next ≤ s'.conf.cards.length) (hroom : s'.spawnsLeft ≤ s.spawnsLeft) : s'.Budget b n := by
  have hover := h.course.inRun_of_state hst hout
  simp only [Prod.mk.injEq] at hphase
  refine ⟨hplain, .of_over ?_ hparks hdeck, le_trans (by omega) h.room⟩
  rw [inRun, hphase.1, hphase.2.1, hphase.2.2]
  exact hover

theorem stepped (hst : s.rt.inst.state = st) (hout : st.outside = true)
    (hphase : (s'.rt.childPid, s'.rt.fork.state, s'.rt.main.wait) = (s.rt.childPid, s.rt.fork.state, s.rt.main.wait))
    (hplain : s'.Plain) (hleft : s'.counters = s.counters)
    (hpend : s'.rt.inst.state.pending ≤ s.rt.inst.state.pending) : s'.Budget b n := by
  obtain ⟨hparks, hdeck⟩ := h.course_of_counters hleft
    (.inl (by rintro hexc; simp [← hst, hexc, State.outside] at hout))
  exact h.moved hst hout hphase hplain (fun _ => hparks) hdeck (spawnsLeft_of_counters hleft hpend)

/-! ### Arcs -/

theorem exitArc (hyoung : s.inRun = true → ¬ LongRun W s) (ha : ExitArc W s s') : s'.Budget b n := by
  have hplain := h.plain
  -- an exit is the end of a run or its next phase
  have hrun : s.rt.childPid ≠ 0 → s.inRun = true := fun hchild => by simp [inRun, hchild]
  cases ha with
  | refresh hage hchild => exact absurd hage (hyoung (hrun hchild))
  | mark now hbind => exact absurd hplain.ordinary.bind hbind
  | hold hbind => exact absurd hplain.ordinary.bind hbind
  | bound hchild hheld => simp [hplain.held] at hheld
  | launcherAdopt hchild =>
    have hphase := h.course.running hchild
    exact h.goesOn (hrun hchild) (fun _ => ⟨rfl, hphase.2⟩) (fun _ => rfl) (hplain.same rfl) rfl (.inl rfl)
  | launcherAwait hchild =>
    have hphase := h.course.running hchild
    exact h.goesOn (hrun hchild) (fun hne => absurd rfl hne) (fun hneg => absurd hneg hphase.2) (hplain.same rfl) rfl
      (.inl rfl)
  | timer hchild htimer => simp [hplain.ordinary.timer] at htimer
  | forkAdopt p hp hchild =>
    have hphase := h.course.running hchild
    exact h.goesOn (hrun hchild) (fun _ => ⟨hphase.1, by simp⟩) (fun hneg => by simp at hneg) (hplain.same rfl) rfl
      (.inl rfl)
  | forkWait hchild =>
    have hphase := h.course.running hchild
    exact h.goesOn (hrun hchild) (fun hne => absurd rfl hne) (fun _ => hphase.1) (hplain.same rfl) rfl (.inl rfl)
  | idle hchild hopen hctl hone hno => simp [hplain.not_idle hopen] at hno
  | noRestart hchild => exact h.exited hchild rfl rfl (hplain.same rfl) rfl rfl
  | ctlRestart hchild hno hctl => simp [hplain.ctl] at hctl
  | died hchild => exact h.exited hchild rfl rfl (hplain.same rfl) rfl rfl

theorem tickArc (hname : serviceIsStandby e.services i = false)
    (hyoung : s.inRun = true → ¬ LongRun W s) (ha : TickArc W e i s s') : s'.Budget b n := by
  have hplain := h.plain
  have hdeck := h.course.deck
  have hcards := hplain.ordinary.cards
  cases ha with
  | refresh hage hrun =>
    refine absurd hage (hyoung ?_)
    rcases hrun with hchild | hfork
    · simp [inRun, hchild]
    · simp [inRun, hfork]
  | fuse =>
    -- a wait for the file or the pid of the daemon outlives the fuse
    have hstill : (inRun { s with rt.inst.state := .excised, rt.exciseReason := .fuse, rt.childPid := 0 }) = true →
        s.inRun = true := by
      simp only [inRun, ne_eq, not_true_eq_false, decide_false, Bool.false_or]
      intro hrun
      rw [Bool.or_assoc, hrun, Bool.or_true]
    refine ⟨hplain.same rfl, ⟨fun hne => absurd rfl hne, h.course.forking, fun _ => .inr (.inr rfl), ?_, hdeck⟩, ?_⟩
    · rintro (hne | hrun)
      · exact absurd rfl hne
      · exact h.course.parks (.inr (hstill hrun))
    · exact h.room_of_counters rfl (Nat.zero_le _)
  | standby hst hup hstandby => simp [hname] at hstandby
  | skipTimer hst htimer => simp [hplain.ordinary.timer] at htimer
  | skip hst =>
    have hclosed : (Service.Plain { s with rt.listen.open_ := 0, rt.inst.state := .perfect }) :=
      ⟨hplain.ordinary, hplain.held, hplain.standby, hplain.ctl, fun _ => rfl, hplain.policy⟩
    exact h.stepped hst rfl rfl hclosed rfl (by rw [hst]; rfl)
  | listenFail hst => exact h.stepped hst rfl rfl (hplain.same rfl) rfl (Nat.zero_le _)
  | listenHeld hst hhold m hm =>
    have hopen := hplain.cleared hm
    exact h.stepped hst rfl rfl
      ⟨hopen.ordinary, hopen.held, hopen.standby, hplain.ctl, hopen.closed, hopen.policy⟩ rfl (by rw [hst]; rfl)
  | blocked hst => exact h.stepped hst rfl rfl (hplain.same rfl) rfl (Nat.zero_le _)
  | startTimeout hst hchild => exact h.exited hchild rfl rfl (hplain.same rfl) rfl rfl
  | startRetry hst hchild hsecs hkeep =>
    rcases hkeep with hkeep | hkeep
    · simp [hplain.ordinary.critical] at hkeep
    · simp [hplain.ordinary.noExcise] at hkeep
  | readyLost hst hchild => exact h.exited hchild rfl rfl (hplain.same rfl) rfl rfl
  | readyExcised hst hchild => exact h.exited hchild rfl rfl (hplain.same rfl) rfl rfl
  | forkAdopt hst hfork =>
    exact h.goesOn (by simp [inRun, hfork]) (fun _ => ⟨h.course.forking hfork, by simp⟩) (fun hneg => by simp at hneg)
      (hplain.same rfl) rfl (.inl rfl)
  | forkMissing hst hfork =>
    have hchild : s.rt.childPid = 0 := by
      by_contra hne
      exact (h.course.running hne).2 hfork
    exact h.ended (by simp [inRun, hfork]) (inRun_eq_false.mpr ⟨hchild, lt_irrefl 0, h.course.forking hfork⟩)
      (hplain.same rfl) rfl rfl
  | promote hst hchild =>
    exact h.goesOn (by simp [inRun, hchild]) h.course.running h.course.forking (hplain.same rfl) rfl (.inr rfl)
  | retry hst hbudget =>
    have hroom : spawnsLeft { s with rt.inst.state := .newProcess, rt.restartCount := s.rt.restartCount + 1 } ≤
        s.spawnsLeft := by
      simp only [spawnsLeft, left, State.pending]
      omega
    rcases hst with hst | hst
    · exact h.moved hst rfl rfl (hplain.same rfl) (fun _ => h.course.parks (.inl (by simp [hst]))) hdeck hroom
    · exact h.moved hst rfl rfl (hplain.same rfl) (fun _ => h.course.parks (.inl (by simp [hst]))) hdeck hroom
  | friction hst => exact h.stepped hst rfl rfl (hplain.same rfl) rfl (Nat.zero_le _)
  | breaker hst hspent hcrit hexc hdormant =>
    have hparks := h.course.parks (.inl (by simp [hst]))
    refine h.moved hst rfl rfl (hplain.same rfl) (fun hne => absurd rfl hne) hdeck ?_
    simp only [spawnsLeft, left, State.pending, toNat_add, reduceToNat]
    unfold maxCards at hcards
    omega
  | park hst hspent hwhy =>
    have hfew : s.rt.dormantCount.toNat < 4 := by
      rcases hwhy with hwhy | hwhy | hwhy
      · simp [hplain.ordinary.critical] at hwhy
      · simp [hplain.ordinary.noExcise] at hwhy
      · exact UInt8.lt_iff_toNat_lt.mp hwhy
    refine h.moved hst rfl rfl (hplain.same rfl) (fun _ => ?_) hdeck ?_
    · simp only [toNat_add, reduceToNat]
      omega
    · simp only [spawnsLeft, left, State.pending, toNat_add, reduceToNat, hst]
      omega
  | wakeUp hst =>
    refine h.moved hst rfl rfl (hplain.same rfl) (fun _ => h.course.parks (.inl (by simp [hst]))) hdeck ?_
    simp only [spawnsLeft, left, State.pending, hst]
    omega
  | timerFire hst htimer => simp [hplain.ordinary.timer] at htimer
  | card hst hcard =>
    have hparks := h.course.parks (.inl (by simp [hst]))
    refine h.moved hst rfl rfl (hplain.same rfl) (fun _ => ?_) hcard ?_
    · dsimp only
      omega
    · simp only [spawnsLeft, left, State.pending, hst]
      omega
  | cardFallback hst hcard =>
    have hparks := h.course.parks (.inl (by simp [hst]))
    unfold maxCards at hcards
    refine h.moved hst rfl rfl (hplain.same rfl) (fun _ => ?_) hcard ?_
    · simp only [toNat_add, reduceToNat]
      omega
    · simp only [spawnsLeft, left, State.pending, toNat_add, reduceToNat, hst]
      omega

theorem spawnArc (hst : s.rt.inst.state = .newProcess) (ha : SpawnArc e s s') : s'.Budget b (n + 1) := by
  have hover := inRun_eq_false.mp (h.course.inRun_of_state hst rfl)
  have hparks := h.course.parks (.inl (by simp [hst]))
  have hdeck := h.course.deck
  have hroom : ∀ t : Service, t.counters = s.counters → t.rt.inst.state.pending = 0 → n + 1 + t.spawnsLeft ≤ b := by
    intro t hleft hnone
    simp only [counters, Prod.mk.injEq] at hleft
    have hsame : t.left = s.left := by rw [left, left, hleft.1, hleft.2.1, hleft.2.2.1, hleft.2.2.2]
    have hbefore := h.room
    rw [spawnsLeft, hst, State.pending] at hbefore
    rw [spawnsLeft, hnone, hsame]
    omega
  cases ha with
  | spawned now m pid cg hm =>
    refine ⟨(h.plain.cleared hm).same rfl,
      ⟨fun _ => ⟨rfl, lt_irrefl 0⟩, fun _ => rfl, fun _ => .inl rfl, fun _ => hparks,
      hdeck⟩, hroom _ rfl rfl⟩
  | failed m hm =>
    exact ⟨(h.plain.cleared hm).same rfl, .of_over (inRun_eq_false.mpr hover) (fun _ => hparks) hdeck, hroom _ rfl rfl⟩
  | slot m hm hslot =>
    have hclear := h.plain.cleared hm
    have hord := h.plain.ordinary
    refine ⟨⟨{ hord with }, hclear.held, hclear.standby,
      hclear.ctl, hclear.closed, fun hlisten => ?_⟩, .of_over (inRun_eq_false.mpr hover) (fun _ => hparks) hdeck,
      hroom _ rfl rfl⟩
    -- a socket service has no slot to violate
    exact absurd hslot (not_le.mpr (hord.socket.resolve_left hlisten).2)
  | killed now m hm =>
    exact ⟨(h.plain.cleared hm).same rfl, .of_over (inRun_eq_false.mpr ⟨rfl, lt_irrefl 0, rfl⟩) (fun _ => hparks) hdeck,
      hroom _ rfl rfl⟩

theorem beside (hplain : s'.Plain) (hleft : s'.counters = s.counters)
    (hcourse : (s'.rt.childPid, s'.rt.fork.state, s'.rt.main.wait, s'.rt.inst.state) =
      (s.rt.childPid, s.rt.fork.state, s.rt.main.wait, s.rt.inst.state)) : s'.Budget b n := by
  have hcounters := hleft
  simp only [counters, Prod.mk.injEq] at hcounters hcourse
  obtain ⟨hchild, hfork, hwait, hst⟩ := hcourse
  obtain ⟨hconf, _, hdc, hnext⟩ := hcounters
  have hrun : s'.inRun = s.inRun := by rw [inRun, inRun, hchild, hfork, hwait]
  refine ⟨hplain, ⟨?_, ?_, ?_, ?_, ?_⟩, h.room_of_counters hleft (by rw [hst])⟩
  · rw [hchild, hwait, hfork]
    exact h.course.running
  · rw [hwait, hfork]
    exact h.course.forking
  · rw [hrun, hst]
    exact h.course.states
  · rw [hst, hrun, hdc, hnext]
    exact h.course.parks
  · rw [hnext, hconf]
    exact h.course.deck

theorem congr (hq : s'.core = s.core) : s'.Budget b n :=
  h.beside (h.plain.same (congrArg (fun t : Service =>
      (t.conf, t.flags, t.rt.bind.held, t.rt.card.standbyUp, t.rt.ctlKilled, t.rt.listen.open_)) hq :))
    (congrArg counters hq :)
    (congrArg (fun t : Service => (t.rt.childPid, t.rt.fork.state, t.rt.main.wait, t.rt.inst.state)) hq :)

theorem monitorArc (hyoung : s.rt.main.wait = true → ¬ LongRun W s) (ha : MonitorArc W s s') : s'.Budget b n := by
  -- a service that waits for its main process has none and waits for nothing else
  have hover : s.rt.main.wait = true → s.inRun = true ∧ s.rt.childPid = 0 ∧ ¬ s.rt.fork.state < 0 := by
    intro hwait
    refine ⟨by simp [inRun, hwait], ?_, fun hfork => ?_⟩
    · by_contra hne
      simp [(h.course.running hne).1] at hwait
    · simp [h.course.forking hfork] at hwait
  cases ha with
  | refresh hage hwait => exact absurd hage (hyoung hwait)
  | retry hwait =>
    obtain ⟨hrun, hchild, hfork⟩ := hover hwait
    exact h.ended hrun (inRun_eq_false.mpr ⟨hchild, hfork, rfl⟩) (h.plain.same rfl) rfl rfl
  | excise hwait =>
    obtain ⟨hrun, hchild, hfork⟩ := hover hwait
    exact h.ended hrun (inRun_eq_false.mpr ⟨hchild, hfork, rfl⟩) (h.plain.same rfl) rfl rfl

theorem hearArc (ha : HearArc s s') : s'.Budget b n := by
  cases ha with
  | adopt p hp hmain hwhy =>
    obtain ⟨hrun, hfork⟩ : s.inRun = true ∧ ¬ s.rt.fork.state < 0 := by
      rcases hwhy with hwait | ⟨hpid, hchild⟩
      · exact ⟨by simp [inRun, hwait], fun hfork => by simp [h.course.forking hfork] at hwait⟩
      · have hne : s.rt.childPid ≠ 0 := by rwa [hchild]
        exact ⟨by simp [inRun, hne], (h.course.running hne).2⟩
    exact h.goesOn hrun (fun _ => ⟨rfl, hfork⟩) (fun _ => rfl) (h.plain.same rfl) rfl (.inl rfl)
  | remember => exact h.beside (h.plain.same rfl) rfl rfl

theorem arc {W : Nat → World → Prop}
    (hname : serviceIsStandby e.services i = false) (hdone : k ≠ .done) (hctl : k.byOperator = false)
    (hyoung : s.mayRefresh k → ¬ LongRun (W i) s) (ha : Arc W e i k s s') : s'.Budget b n := by
  cases k with
  | help =>
    cases ha with
    | quiet hq => exact h.congr hq
    | tree => exact h.beside (h.plain.same rfl) rfl rfl
  | exit => exact h.exitArc hyoung ha
  | done => exact absurd rfl hdone
  | lost =>
    cases ha with
    | launcher hchild => exact h.exited hchild rfl rfl (h.plain.same rfl) rfl rfl
    | fork hchild => exact h.exited hchild rfl rfl (h.plain.same rfl) rfl rfl
  | tick => exact h.tickArc hname hyoung ha
  | other => exact absurd rfl (ha.unasked hname h.plain.standby)
  | stop => exact absurd rfl (ha.unbound h.plain.ordinary.bind h.plain.held).1
  | bind => exact absurd rfl (ha.unbound h.plain.ordinary.bind h.plain.held).2
  | monitor => exact h.monitorArc hyoung ha
  | hear => exact h.hearArc ha
  | wake =>
    cases ha with
    | wake hst => exact h.stepped hst rfl rfl (h.plain.same rfl) rfl (by rw [hst]; rfl)
  | ctl => cases hctl
  | halt => cases hctl
  | pause =>
    cases ha with
    | resume => exact h.beside (h.plain.same rfl) rfl rfl
  | _ => cases ha

end Budget

end Service

/-! ## How long a run is -/

/-- What the end of a process, a tick or a stop does to a run: it starts no new one, and
only the end of a launcher begins a wait. -/
structure RunKept (k : Kind) (s s' : Service) : Prop where
  spawnTime : s'.rt.spawnTime = s.rt.spawnTime
  inRun : s'.inRun = true → s.inRun = true
  wait : k ≠ .exit → s'.rt.main.wait = true → s.rt.main.wait = true

namespace RunKept

theorem same (h : (s'.rt.childPid, s'.rt.fork.state, s'.rt.main.wait, s'.rt.spawnTime) =
    (s.rt.childPid, s.rt.fork.state, s.rt.main.wait, s.rt.spawnTime)) : RunKept k s s' := by
  simp only [Prod.mk.injEq] at h
  obtain ⟨hchild, hfork, hwait, htime⟩ := h
  refine ⟨htime, ?_, ?_⟩
  · rw [Service.inRun, Service.inRun, hchild, hfork, hwait]
    exact id
  · rw [hwait]
    exact fun _ => id

theorem of_inRun (hrun : s.inRun = true) (htime : s'.rt.spawnTime = s.rt.spawnTime)
    (hwait : k ≠ .exit → s'.rt.main.wait = true → s.rt.main.wait = true) : RunKept k s s' :=
  ⟨htime, fun _ => hrun, hwait⟩

theorem of_child (hchild : s.rt.childPid ≠ 0) (htime : s'.rt.spawnTime = s.rt.spawnTime)
    (hwait : k ≠ .exit → s'.rt.main.wait = true → s.rt.main.wait = true) : RunKept k s s' :=
  of_inRun (by simp [Service.inRun, hchild]) htime hwait

theorem tickArc (ha : TickArc W e i s s') : RunKept .tick s s' := by
  cases ha with
  | fuse =>
    refine ⟨rfl, fun hrun => ?_, fun _ => id⟩
    simp only [Service.inRun, ne_eq, not_true_eq_false, decide_false, Bool.false_or] at hrun
    rw [Service.inRun, Bool.or_assoc, hrun, Bool.or_true]
  | startTimeout hst hchild => exact .of_child hchild rfl fun _ => id
  | startRetry hst hchild => exact .of_child hchild rfl fun _ => id
  | readyLost hst hchild => exact .of_child hchild rfl fun _ => id
  | readyExcised hst hchild => exact .of_child hchild rfl fun _ => id
  | forkAdopt hst hfork => exact .of_inRun (by simp [Service.inRun, hfork]) rfl fun _ => id
  | forkMissing hst hfork => exact .of_inRun (by simp [Service.inRun, hfork]) rfl fun _ => id
  | _ => exact .same rfl

theorem arc {W : Nat → World → Prop} (hhear : k ≠ .hear) (hctl : k.byOperator = false) (hpause : k ≠ .pause)
    (ha : Arc W e i k s s') : RunKept k s s' := by
  cases k with
  | help =>
    cases ha with
    | quiet hq =>
      exact .same (congrArg (fun t : Service => (t.rt.childPid, t.rt.fork.state, t.rt.main.wait, t.rt.spawnTime)) hq :)
    | tree => exact .same rfl
  | exit => exact .of_child (ha.running (.inl rfl)) (by cases ha <;> rfl) (by simp)
  | done => exact .of_child (ha.running (.inr (.inl rfl))) (by cases ha <;> rfl) fun _ => by cases ha <;> exact id
  | lost => exact .of_child (ha.running (.inr (.inr rfl))) (by cases ha <;> rfl) fun _ => by cases ha <;> exact id
  | tick => exact tickArc ha
  | other =>
    cases ha with
    | fallbackUp =>
      exact .same (by simp)
    | downStop => exact .same rfl
    | downExcise => exact .same rfl
  | stop =>
    cases ha with
    | bindStop => exact .same rfl
  | bind => cases ha <;> exact .same rfl
  | monitor =>
    cases ha with
    | refresh => exact .same rfl
    | retry hwait => exact .of_inRun (by simp [Service.inRun, hwait]) rfl (by simp)
    | excise hwait => exact .of_inRun (by simp [Service.inRun, hwait]) rfl (by simp)
  | wake =>
    cases ha with
    | wake => exact .same rfl
  | hear => exact absurd rfl hhear
  | ctl => cases hctl
  | halt => cases hctl
  | pause => exact absurd rfl hpause
  | _ => cases ha

end RunKept

theorem LongRun.congr (htime : s'.rt.spawnTime = s.rt.spawnTime) (h : LongRun W s') : LongRun W s := by
  obtain ⟨w, hw, hage⟩ := h
  rw [htime] at hage
  exact ⟨w, hw, hage⟩

def Service.YoungRun (W : World → Prop) (s : Service) : Prop :=
  s.inRun = true → ¬ LongRun W s

def Service.YoungWait (W : World → Prop) (s : Service) : Prop :=
  s.rt.main.wait = true → ¬ LongRun W s

theorem Service.YoungRun.wait (h : s.YoungRun W) : s.YoungWait W :=
  fun hwait => h (by simp [inRun, hwait])

theorem RunKept.youngRun (h : RunKept k s s') (hyoung : s.YoungRun W) : s'.YoungRun W :=
  fun hrun hlong => hyoung (h.inRun hrun) (hlong.congr h.spawnTime)

theorem RunKept.youngWait (h : RunKept k s s') (hk : k ≠ .exit) (hyoung : s.YoungWait W) : s'.YoungWait W :=
  fun hwait hlong => hyoung (h.wait hk hwait) (hlong.congr h.spawnTime)

theorem SpawnArc.youngWait (ha : SpawnArc e s s') (hyoung : s.YoungWait W) : s'.YoungWait W := by
  intro hwait hlong
  cases ha with
  | spawned => cases hwait
  | failed => exact hyoung hwait hlong
  | slot => exact hyoung hwait hlong
  | killed => cases hwait

/-! ## Stages of an event -/

/-- Between two stages of an event: the budget of service `i` holds, and `A` keeps it from
being refreshed. -/
structure Pid1.Stage (count i b : Nat) (A : Service → Prop) (u : Pid1) : Prop where
  count : u.count = count
  name : serviceIsStandby u.services i = false
  budget : (u.at_ i).Budget b (u.spawnsOf i)
  young : A (u.at_ i)

namespace Moves

variable {W : Nat → World → Prop} {G : Pid1 → Nat → Prop} {K : Nat → Kind → Prop} {e' : Pid1}

theorem stage {A : Service → Prop} (h : Moves W G K e e') (hkinds : ∀ k, K i k → k ≠ .done ∧ k.byOperator = false)
    (hyoung : ∀ k s, K i k → A s → s.mayRefresh k → ¬ LongRun (W i) s)
    (hkeep : ∀ u k s s', K i k → Arc W u i k s s' → A s → A s')
    (hspawn : K i .spawn → ∀ u s t s', SpawnArc u s t → s'.core = t.core → A s → A s')
    (hfreeze : K i .freeze → ∀ (s : Service) (x : Bool), A s → A { s with rt.isFrozen := x })
    (start : e.Stage n i b A) : e'.Stage n i b A := by
  have hboth : (e'.at_ i).Budget b (e'.spawnsOf i) ∧ A (e'.at_ i) := by
    refine h.ruleAt (P := fun s n => s.Budget b n ∧ A s) ?_ ?_ ?_ ⟨start.budget, start.young⟩
    · rintro u k s s' n hm hk harc ⟨hs, hA⟩
      obtain ⟨hdone, hctl⟩ := hkinds k hk
      exact ⟨hs.arc ((hm.standby i).trans start.name) hdone hctl (hyoung k s hk hA) harc, hkeep u k s s' hk harc hA⟩
    · rintro hk u s t s' n _ hst harc hq ⟨hs, hA⟩
      exact ⟨(hs.spawnArc hst harc).congr hq, hspawn hk u s t s' harc hq hA⟩
    · rintro hk s n x ⟨hs, hA⟩
      exact ⟨hs.beside (hs.plain.same rfl) rfl rfl, hfreeze hk s x hA⟩
  exact ⟨h.count.trans start.count, (h.standby i).trans start.name, hboth.1, hboth.2⟩

theorem stage_calm (h : Moves (fun _ _ => False) G K e e') (hkinds : ∀ k, K i k → k ≠ .done ∧ k.byOperator = false)
    (start : e.Stage n i b fun _ => True) : e'.Stage n i b fun _ => True := by
  refine h.stage hkinds ?_ (fun _ _ _ _ _ _ _ => trivial) (fun _ _ _ _ _ _ _ _ => trivial)
    (fun _ _ _ _ => trivial) start
  rintro k s _ _ _ ⟨w, hw, _⟩
  exact hw

theorem stage_young (h : Moves W G K e e') (hV : ∀ w, W i w → V w)
    (hkinds : ∀ k, K i k → k ≠ .done ∧ k.byOperator = false ∧ k ≠ .hear ∧ k ≠ .pause ∧ k ≠ .spawn)
    (start : e.Stage n i b (Service.YoungRun V)) : e'.Stage n i b (Service.YoungRun V) := by
  refine h.stage (fun k hk => ⟨(hkinds k hk).1, (hkinds k hk).2.1⟩) ?_ ?_
    (fun hk => absurd rfl (hkinds _ hk).2.2.2.2) (fun _ _ _ hA => hA) start
  · rintro k s hk hA hmay ⟨w, hw, hage⟩
    refine hA ?_ ⟨w, hV w hw, hage⟩
    cases k with
    | exit => exact hmay
    | tick => exact hmay
    | monitor =>
      have hwait : s.rt.main.wait = true := hmay
      simp [inRun, hwait]
    | _ => exact hmay.elim
  · intro u k s s' hk harc hA
    obtain ⟨_, hctl, hhear, hpause, _⟩ := hkinds k hk
    exact (RunKept.arc hhear hctl hpause harc).youngRun hA

theorem stage_after (h : Moves W G K e e') (hV : ∀ w, W i w → V w)
    (hkinds : ∀ k, K i k → k = .help ∨ k = .op ∨ k = .stop ∨ k = .other ∨ k = .monitor)
    (start : e.Stage n i b (Service.YoungWait V)) : e'.Stage n i b (Service.YoungWait V) := by
  have hno : ∀ k, K i k → k ≠ .exit ∧ k ≠ .done ∧ k.byOperator = false ∧ k ≠ .hear ∧ k ≠ .pause ∧ k ≠ .spawn ∧
      k ≠ .freeze := by
    intro k hk
    rcases hkinds k hk with rfl | rfl | rfl | rfl | rfl <;> simp [Kind.byOperator]
  refine h.stage (fun k hk => ⟨(hno k hk).2.1, (hno k hk).2.2.1⟩) ?_ ?_
    (fun hk => absurd rfl (hno _ hk).2.2.2.2.2.1) (fun hk => absurd rfl (hno _ hk).2.2.2.2.2.2) start
  · rintro k s hk hA hmay ⟨w, hw, hage⟩
    have hwait : s.rt.main.wait = true := by
      rcases hkinds k hk with rfl | rfl | rfl | rfl | rfl
      · exact hmay.elim
      · exact hmay.elim
      · exact hmay.elim
      · exact hmay.elim
      · exact hmay
    exact hA hwait ⟨w, hV w hw, hage⟩
  · intro u k s s' hk harc hA
    obtain ⟨hexit, _, hctl, hhear, hpause, _⟩ := hno k hk
    exact (RunKept.arc hhear hctl hpause harc).youngWait hexit hA

end Moves

/-! ## Events -/

def Service.young (s : Service) (w : World) : Bool :=
  w.now.sec - s.rt.spawnTime.sec < restartResetSecs

/-- The operator does nothing (a `pet` comes from the service itself), a run of service `i`
is young as long as it lasts, and its end is no success. -/
def Input.failsQuickly (i : Nat) (e : Pid1) : Input → Bool
  | .hup _ _ _ => false
  | .ctl _ _ (.pet _) => true
  | .ctl _ _ _ => false
  | .child w pid st => (e.at_ i).rt.childPid ≠ pid || ((e.at_ i).young w && !(e.at_ i).succeeds st)
  | .pass p => !(e.at_ i).inRun ||
      ((e.at_ i).young (p.recheck i) && (e.at_ i).young (p.tick i) && (e.at_ i).young (p.monitor i))
  | _ => true

theorem Service.not_longRun (h : ∀ w, W w → s.young w = true) : ¬ LongRun W s := by
  rintro ⟨w, hw, hage⟩
  have hyoung := h w hw
  rw [young, decide_eq_true_eq] at hyoung
  exact absurd hage (not_le.mpr hyoung)

namespace Pid1

theorem stage_child (w : World) {pid : Nat} (st : WaitStatus) (hpid : pid ≠ 0)
    (hx : Input.failsQuickly i e (.child w pid st) = true) (start : e.Stage n i b fun _ => True) :
    (e.reap w pid st).Stage n i b fun _ => True := by
  simp only [Input.failsQuickly, Bool.or_eq_true, decide_eq_true_eq, Bool.and_eq_true, Bool.not_eq_true'] at hx
  -- of this service, only the exit of its main process counts
  have hkinds : ∀ k, e.exitKinds pid st i k → k = .help ∨ k = .op ∨ k = .lost ∨
      (k = .exit ∧ (e.at_ i).young w = true) := by
    rintro k (⟨_, rfl | rfl⟩ | ⟨hchild, rfl | ⟨rfl, hdone⟩ | ⟨rfl, _⟩⟩)
    · exact .inl rfl
    · exact .inr (.inl rfl)
    · exact .inr (.inr (.inr ⟨rfl, (hx.resolve_left (not_not.mpr hchild)).1⟩))
    · have hno := (hx.resolve_left (not_not.mpr hchild)).2
      simp [hno] at hdone
    · exact .inr (.inr (.inl rfl))
  have hm := (reap_moves w hpid st e).stage
    (A := fun s => s.rt.spawnTime = (e.at_ i).rt.spawnTime) ?_ ?_ ?_ ?_ (fun _ _ _ hA => hA)
    ⟨start.count, start.name, start.budget, rfl⟩
  · exact ⟨hm.count, hm.name, hm.budget, trivial⟩
  · intro k hk
    rcases hkinds k hk with rfl | rfl | rfl | ⟨rfl, _⟩ <;> simp [Kind.byOperator]
  · intro k s hk htime hmay hlong
    rcases hkinds k hk with rfl | rfl | rfl | ⟨rfl, hyoung⟩
    · exact hmay
    · exact hmay
    · exact hmay
    · refine not_longRun ?_ (hlong.congr htime)
      rintro v rfl
      exact hyoung
  · intro u k s s' hk harc htime
    rcases hkinds k hk with rfl | rfl | rfl | ⟨rfl, _⟩
    · exact (RunKept.arc (by simp) rfl (by simp) harc).spawnTime.trans htime
    · cases harc
    · exact (RunKept.arc (by simp) rfl (by simp) harc).spawnTime.trans htime
    · exact (RunKept.arc (by simp) rfl (by simp) harc).spawnTime.trans htime
  · intro hk
    simpa using hkinds _ hk

/-- The tick of the service: in `NEW_PROCESS` it can be spawned but has no run to refresh the
budget for; in other states it is not spawned. -/
theorem stage_tick {w : World} (hw : V w) (groups : List State) (hi : i < e.count)
    (start : e.Stage n i b (Service.YoungRun V)) : (e.tickService w groups i).Stage n i b (Service.YoungWait V) := by
  have hhelp : ∀ j, tickKinds i j .help := fun _ => .inl rfl
  have hstop : ∀ j, tickKinds i j .stop := fun _ => .inr (.inl rfl)
  have hother : ∀ j, tickKinds i j .other := fun _ => .inr (.inr (.inl rfl))
  have hop : tickKinds i i .op := .inr (.inr (.inr ⟨rfl, .inl rfl⟩))
  have htick : tickKinds i i .tick := .inr (.inr (.inr ⟨rfl, .inr (.inl rfl)⟩))
  have hkinds : ∀ k, tickKinds i i k → k ≠ .exit ∧ k ≠ .done ∧ k.byOperator = false ∧ k ≠ .hear ∧ k ≠ .pause := by
    intro k hk
    rcases hk with rfl | rfl | rfl | ⟨_, rfl | rfl | rfl⟩ <;> simp [Kind.byOperator]
  have hcalm : ∀ k, tickKinds i i k ∧ k ≠ .spawn →
      k ≠ .done ∧ k.byOperator = false ∧ k ≠ .hear ∧ k ≠ .pause ∧ k ≠ .spawn :=
    fun k hk => ⟨(hkinds k hk.1).2.1, (hkinds k hk.1).2.2.1, (hkinds k hk.1).2.2.2.1, (hkinds k hk.1).2.2.2.2, hk.2⟩
  -- the fuse first
  obtain ⟨v, hv, hfused⟩ : ∃ v, v = (if fuseTrips e.services (e.at_ i) then e.on w i Loc.tickFuse else e) ∧
      Moves (fun _ _ => False) (fun _ _ => True) (fun j k => tickKinds i j k ∧ k ≠ .spawn) e v := by
    refine ⟨_, rfl, ?_⟩
    split
    case isTrue hfuse =>
      simp only [fuseTrips, Bool.and_eq_true] at hfuse
      exact Moves.refl.work w hi fun u _ =>
        Loc.tickFuse_work ⟨hhelp i, by simp⟩ ⟨hop, by simp⟩ ⟨htick, by simp⟩ hfuse.1.1
    · exact .refl
  have hstart := hfused.stage_young (fun _ h => h.elim) hcalm start
  have hiv : i < v.count := hfused.count.symm ▸ hi
  rw [tickService, ← hv]
  by_cases hst : (v.at_ i).rt.inst.state = .newProcess
  · have hm : Moves (fun _ _ => False) (fun _ _ => True) (tickKinds i) v (v.tickState w groups i) :=
      tickState_moves hhelp hstop (fun j _ => hother j) hop htick hiv
        (fun _ => .inr (.inr (.inr ⟨rfl, .inr (.inr rfl)⟩)))
        (fun h => absurd hst h) fun _ _ => trivial
    refine hm.stage (fun k hk => ⟨(hkinds k hk).2.1, (hkinds k hk).2.2.1⟩) ?_ ?_ ?_
      (fun _ _ _ hA => hA) ⟨hstart.count, hstart.name, hstart.budget, hstart.young.wait⟩
    · rintro k s _ _ _ ⟨x, hx, _⟩
      exact hx
    · intro u k s s' hk harc hA
      obtain ⟨hexit, _, hctl, hhear, hpause⟩ := hkinds k hk
      exact (RunKept.arc hhear hctl hpause harc).youngWait hexit hA
    · intro _ u s t s' harc hq hA
      have hsame : RunKept .help t s' :=
        .same (congrArg (fun t : Service => (t.rt.childPid, t.rt.fork.state, t.rt.main.wait, t.rt.spawnTime)) hq :)
      exact hsame.youngWait (by simp) (harc.youngWait hA)
  · have hm : Moves (fun _ => V) (fun _ _ => True) (fun j k => tickKinds i j k ∧ k ≠ .spawn) v
      (v.tickState w groups i) :=
      tickState_moves (fun j => ⟨hhelp j, by simp⟩) (fun j => ⟨hstop j, by simp⟩) (fun j _ => ⟨hother j, by simp⟩)
        ⟨hop, by simp⟩ ⟨htick, by simp⟩ hiv (fun h => absurd h hst) (fun _ => hw) fun _ _ => trivial
    have hend := hm.stage_young (fun _ h => h) hcalm hstart
    exact ⟨hend.count, hend.name, hend.budget, hend.young.wait⟩

theorem stage_pass (p : Pass) (hi : i < e.count) (hx : Input.failsQuickly i e (.pass p) = true)
    (start : e.Stage n i b fun _ => True) : (e.pass p).Stage n i b fun _ => True := by
  have hyoung : (e.at_ i).YoungRun (p.uses i) := by
    intro hrun
    simp only [Input.failsQuickly, hrun, Bool.not_true, Bool.false_or, Bool.and_eq_true] at hx
    refine not_longRun ?_
    rintro w (rfl | rfl | rfl)
    · exact hx.1.1
    · exact hx.1.2
    · exact hx.2
  have hfront := (passFront_moves (G := fun _ _ => True)
    (K := fun _ k => k = .freeze ∨ k = .help ∨ k = .op ∨ k = .tick ∨ k = .stop ∨ k = .bind)
    (fun _ => by simp) (fun _ => by simp) (fun _ => by simp) (fun _ => by simp) (fun _ => by simp) (fun _ => by simp)
    p e).stage_young (fun _ h => h)
    (fun k hk => by rcases hk with rfl | rfl | rfl | rfl | rfl | rfl <;> simp [Kind.byOperator])
    ⟨start.count, start.name, start.budget, hyoung⟩
  have hi : i < n := start.count ▸ hi
  rw [pass]
  generalize (passRecheck p (loopPressure p.w p.nowMs p.stalled e)).groups.map (·.state) = groups
  generalize svcStates (passRecheck p (loopPressure p.w p.nowMs p.stalled e)).services = states
  generalize bindTick p.w (timerCatchupTick p.catchup (passRecheck p (loopPressure p.w p.nowMs p.stalled e))) = v
    at hfront ⊢
  -- the tick of another service
  have hothers : ∀ (u : Pid1) (j : Nat), j ≠ i → j < u.count →
      Moves p.uses (fun _ _ => True) (tickKinds j) u (u.tickService (p.tick j) groups j) ∧
      ∀ k, tickKinds j i k → k = .help ∨ k = .stop ∨ k = .other := by
    intro u j hne hj
    refine ⟨tickService_kinds (.inr (.inl rfl)) groups hj, ?_⟩
    rintro k (h | h | h | ⟨hij, _⟩)
    · exact .inl h
    · exact .inr (.inl h)
    · exact .inr (.inr h)
    · exact absurd hij.symm hne
  have hticks : (passTicks p groups v).Stage n i b (Service.YoungWait (p.uses i)) := by
    refine Run.foldl_range_turn (by rwa [hfront.count]) hfront ?_
      (fun u hu => stage_tick (.inr (.inl rfl)) groups (by rwa [hu.count]) hu) ?_
    · intro j u hj hu
      obtain ⟨hm, hk⟩ := hothers u j (by omega) (by rw [hu.count]; omega)
      refine hm.stage_young (fun _ h => h) (fun k hkind => ?_) hu
      rcases hk k hkind with rfl | rfl | rfl <;> simp [Kind.byOperator]
    · intro j u hij hj hu
      obtain ⟨hm, hk⟩ := hothers u j (by omega) (by rw [hu.count, ← hfront.count]; exact hj)
      refine hm.stage_after (fun _ h => h) (fun k hkind => ?_) hu
      rcases hk k hkind with rfl | rfl | rfl <;> simp
  have htail := (passTail_moves (G := fun _ _ => True) (K := fun _ k => k = .help ∨ k = .op ∨ k = .monitor)
    (fun _ => .inl rfl) (fun _ => .inr (.inl rfl)) (fun _ => .inr (.inr rfl)) (fun _ => .inr (.inr rfl))
    states _).stage_after (fun _ h => h)
    (fun k hk => by rcases hk with rfl | rfl | rfl <;> simp) hticks
  exact ⟨htail.count, htail.name, htail.budget, trivial⟩

theorem Stage.step (start : e.Stage n i b fun _ => True) (hi : i < e.count)
    (hx : Input.failsQuickly i e x = true) : (e.step x).Stage n i b fun _ => True := by
  cases x with
  | wake j =>
    refine (socketWake_moves j e).stage_calm ?_ start
    rintro k ⟨_, rfl | rfl⟩ <;> simp [Kind.byOperator]
  | child w pid st =>
    rw [step]
    split
    · exact start
    case isFalse hpid => exact stage_child w st hpid hx start
  | hup w ws c => cases hx
  | ctl w ws c =>
    cases c with
    | pet name =>
      refine (ctlCmd_moves (G := fun _ _ => True) w ws (.pet name) e rfl).stage_calm ?_ start
      rintro k (rfl | rfl | rfl | ⟨⟨_, hno, _⟩, _⟩)
      · simp [Kind.byOperator]
      · simp [Kind.byOperator]
      · simp [Kind.byOperator]
      · cases hno
    | _ => cases hx
  | notify w m =>
    refine (notifyPoll_moves w m e).stage_calm ?_ start
    rintro k (rfl | ⟨_, rfl | ⟨rfl, _⟩⟩) <;> simp [Kind.byOperator]
  | pause w paused =>
    refine (notifyPauseTrack_moves w paused e).stage_calm ?_ start
    rintro k (rfl | rfl) <;> simp [Kind.byOperator]
  | inotify nowMs =>
    rw [step, readyInotifyDrain]
    split
    · exact ⟨start.count, start.name, start.budget, trivial⟩
    · exact start
  | pass p => exact stage_pass p hi hx start

end Pid1

/-! ## A service that is given up -/

structure Service.GivenUp (s : Service) : Prop where
  plain : s.Plain
  state : s.rt.inst.state = .excised
  resting : s.inRun = false

namespace Service.GivenUp

theorem same (h : s.GivenUp) (hplain : s'.Plain)
    (hs : (s'.rt.childPid, s'.rt.fork.state, s'.rt.main.wait, s'.rt.inst.state) =
      (s.rt.childPid, s.rt.fork.state, s.rt.main.wait, s.rt.inst.state)) : s'.GivenUp := by
  simp only [Prod.mk.injEq] at hs
  refine ⟨hplain, hs.2.2.2.trans h.state, ?_⟩
  rw [inRun, hs.1, hs.2.1, hs.2.2.1]
  exact h.resting

theorem tickArc (h : s.GivenUp) (ha : TickArc W e i s s') : s'.GivenUp := by
  obtain ⟨hchild, hfork, hwait⟩ := inRun_eq_false.mp h.resting
  -- every other arc of a tick starts in another state
  have hstate : ∀ st, s.rt.inst.state = st → st ≠ .excised → False := fun st hst hne => hne (hst.symm.trans h.state)
  cases ha with
  | refresh hage hrun =>
    rcases hrun with hrun | hrun
    · exact absurd hchild hrun
    · exact absurd hrun hfork
  | fuse => exact ⟨h.plain.same rfl, rfl, inRun_eq_false.mpr ⟨rfl, hfork, hwait⟩⟩
  | retry hst =>
    rcases hst with hst | hst
    · exact (hstate _ hst (by simp)).elim
    · exact (hstate _ hst (by simp)).elim
  | _ => exact (hstate _ ‹_› (by simp)).elim

theorem arc {W : Nat → World → Prop} (h : s.GivenUp)
    (hname : serviceIsStandby e.services i = false) (hctl : k.byOperator = false)
    (ha : Arc W e i k s s') : s'.GivenUp := by
  obtain ⟨hchild, hfork, hwait⟩ := inRun_eq_false.mp h.resting
  cases k with
  | help =>
    cases ha with
    | quiet hq =>
      exact h.same (h.plain.same (congrArg (fun t : Service =>
        (t.conf, t.flags, t.rt.bind.held, t.rt.card.standbyUp, t.rt.ctlKilled, t.rt.listen.open_)) hq :))
        (congrArg (fun t : Service => (t.rt.childPid, t.rt.fork.state, t.rt.main.wait, t.rt.inst.state)) hq :)
    | tree => exact h.same (h.plain.same rfl) rfl
  | exit => exact absurd hchild (ha.running (.inl rfl))
  | done => exact absurd hchild (ha.running (.inr (.inl rfl)))
  | lost => exact absurd hchild (ha.running (.inr (.inr rfl)))
  | tick => exact h.tickArc ha
  | other => exact absurd rfl (ha.unasked hname h.plain.standby)
  | stop => exact absurd rfl (ha.unbound h.plain.ordinary.bind h.plain.held).1
  | bind => exact absurd rfl (ha.unbound h.plain.ordinary.bind h.plain.held).2
  | monitor =>
    cases ha with
    | refresh hage hne => simp [hwait] at hne
    | retry hne => simp [hwait] at hne
    | excise hne => simp [hwait] at hne
  | hear =>
    cases ha with
    | adopt p hp hmain hwhy =>
      rcases hwhy with hne | ⟨hne, hmain⟩
      · simp [hwait] at hne
      · exact absurd (hmain.symm.trans hchild) hne
    | remember => exact h.same (h.plain.same rfl) rfl
  | wake =>
    cases ha with
    | wake hst => simp [h.state] at hst
  | ctl => cases hctl
  | halt => cases hctl
  | pause =>
    cases ha with
    | resume t hst => simp [h.state] at hst
  | _ => cases ha

end Service.GivenUp

/-! ## Whole runs -/

theorem Service.Fresh.budget (h : s.Fresh) (hord : Ordinary s.conf s.flags) (n : Nat) :
    s.Budget (n + s.conf.spawnBound) n := by
  have hrt := h.rt
  refine ⟨⟨hord, ?_, ?_, ?_, fun _ => ?_, fun hlisten => ?_⟩, .of_over ?_ (fun _ => ?_) ?_, ?_⟩
  · rw [hrt]; rfl
  · rw [hrt]; rfl
  · rw [hrt]; rfl
  · rw [hrt]; rfl
  · rw [h.policy]
    exact (hord.socket.resolve_left hlisten).1
  · rw [inRun, hrt]; rfl
  · rw [hrt]
    exact Nat.zero_le _
  · rw [hrt]
    exact Nat.zero_le _
  · rw [spawnsLeft, left, hrt]
    simp only [fresh, schemaInstanceInit, State.pending, Conf.spawnBound, reduceToNat]
    omega

theorem Input.failsQuickly_quiet (h : x.failsQuickly i e = true) :
    x.keepsTable = true ∧ ∀ k, x.kinds e i k → k.byOperator = false := by
  cases x with
  | hup w ws c => cases h
  | ctl w ws c =>
    cases c with
    | pet name =>
      refine ⟨rfl, ?_⟩
      rintro k (rfl | rfl | rfl | ⟨⟨_, hno, _⟩, _⟩)
      · rfl
      · rfl
      · rfl
      · cases hno
    | _ => cases h
  | _ =>
    refine ⟨rfl, fun k hk => ?_⟩
    cases k with
    | ctl => simp [Input.kinds, exitKinds, hearKinds, Kind.inPass] at hk
    | halt => simp [Input.kinds, exitKinds, hearKinds, Kind.inPass] at hk
    | _ => rfl

namespace Pid1

theorem givenUp_step (h : (e.at_ i).GivenUp) (hname : serviceIsStandby e.services i = false)
    (hx : x.failsQuickly i e = true) :
    ((e.step x).at_ i).GivenUp ∧ serviceIsStandby (e.step x).services i = false ∧
    (e.step x).spawnsOf i = e.spawnsOf i := by
  obtain ⟨hkeeps, hctl⟩ := Input.failsQuickly_quiet hx
  have hm := step_moves e x hkeeps
  have hboth := hm.ruleAt (P := fun s n => s.GivenUp ∧ n = e.spawnsOf i) ?_ ?_ ?_ ⟨h, rfl⟩
  · exact ⟨hboth.1, (hm.standby i).trans hname, hboth.2⟩
  · rintro u k s s' n hu hk harc ⟨hs, hn⟩
    exact ⟨hs.arc ((hu.standby i).trans hname) (hctl k hk) harc, hn⟩
  · rintro _ u s t s' n _ hst _ _ ⟨hs, _⟩
    simp [hs.state] at hst
  · rintro _ s n x ⟨hs, hn⟩
    exact ⟨hs.same (hs.plain.same rfl) rfl, hn⟩

/-- The runs the bound is about: service `i` was just loaded in `e₀`, it is an ordinary one
that no card names as a fallback, and from there on its runs fail quickly. -/
structure FailingRun (i : Nat) (e₀ e : Pid1) : Prop where
  here : i < e₀.count
  fresh : (e₀.at_ i).Fresh
  ordinary : Ordinary (e₀.at_ i).conf (e₀.at_ i).flags
  alone : serviceIsStandby e₀.services i = false
  run : Run.Reaches step (fun e x => Input.failsQuickly i e x = true) e₀ e

theorem FailingRun.stage {e₀ : Pid1} (h : FailingRun i e₀ e) :
    e.Stage e₀.count i (e₀.spawnsOf i + (e₀.at_ i).conf.spawnBound) fun _ => True := by
  refine h.run.invariant _ ⟨rfl, h.alone, h.fresh.budget h.ordinary _, trivial⟩ ?_
  intro u x hu hx
  exact hu.step (by rw [hu.count]; exact h.here) hx

/-- In a run in which the service keeps failing quickly, `service_spawn` is called for it at
most `max(max_restarts, 0) + 5 + card_count` times, and once it is excised with its run
over it stays so and is spawned no more. -/
theorem spawns_le_bound {i : Nat} {e₀ e : Pid1} (h : FailingRun i e₀ e) :
    e.spawnsOf i ≤ e₀.spawnsOf i + (e₀.at_ i).conf.spawnBound ∧
      ((e.at_ i).rt.inst.state = .excised → (e.at_ i).inRun = false →
        ∀ e', Run.Reaches step (fun e x => Input.failsQuickly i e x = true) e e' →
          (e'.at_ i).rt.inst.state = .excised ∧ e'.spawnsOf i = e.spawnsOf i) := by
  have hstage := h.stage
  refine ⟨by have := hstage.budget.room; omega, ?_⟩
  intro hst hover e' hrun
  have hend : (e'.at_ i).GivenUp ∧ serviceIsStandby e'.services i = false ∧ e'.spawnsOf i = e.spawnsOf i := by
    refine hrun.invariant (fun u => (u.at_ i).GivenUp ∧ serviceIsStandby u.services i = false ∧
      u.spawnsOf i = e.spawnsOf i) ⟨⟨hstage.budget.plain, hst, hover⟩, hstage.name, rfl⟩ ?_
    rintro u x ⟨hup, hname, hcount⟩ hx
    obtain ⟨hup', hname', hcount'⟩ := givenUp_step hup hname hx
    exact ⟨hup', hname', hcount'.trans hcount⟩
  exact ⟨hend.1.state, hend.2.2⟩

/-! ## Two failing services -/

def bootOne (conf : Conf) (flags : Flags) : Pid1 :=
  boot (fun _ => {}) (cstr "/cg")
    { dir := { files := [{ fname := conf.name ++ cstr ".svc", conf := conf, flags := flags }] } }

def failAt (sec : Int) (pid : Nat) : Input :=
  .child { now := ⟨sec, 0⟩ } pid (.exited 1)

def onceBoot : Pid1 :=
  bootOne { name := cstr "web", exec := cstr "/bin/web", maxRestarts := 1 } {}

def onceRun : List Input :=
  [passAt 1 7, failAt 3 7, passAt 4 8, passAt 5 8, passAt 6 8, failAt 9 8]

theorem spawns_le_bound_once : FailingRun 0 onceBoot (onceRun.foldl step onceBoot) ∧
    (onceRun.foldl step onceBoot).spawnsOf 0 ≤ onceBoot.spawnsOf 0 + (onceBoot.at_ 0).conf.spawnBound := by
  have hok : Run.AllOk step (fun e x => Input.failsQuickly 0 e x = true) onceBoot onceRun := by decide +kernel
  have hrun : FailingRun 0 onceBoot (onceRun.foldl step onceBoot) :=
    { here := by decide +kernel
      fresh := ⟨by decide +kernel, by decide +kernel, by decide +kernel⟩
      ordinary := ⟨by decide +kernel, by decide +kernel, by decide +kernel, by decide +kernel, by decide +kernel,
        .inl (by decide +kernel)⟩
      alone := by decide +kernel
      run := hok.reaches }
  exact ⟨hrun, (spawns_le_bound hrun).1⟩

def sockBoot : Pid1 :=
  bootOne { name := cstr "web", exec := cstr "/bin/web", maxRestarts := 0, listen := [cstr "/run/web"] }
    { noRestart := true }

/-- Six times it is spawned, fails after four seconds and gets a connection. -/
def sockRun : List Input :=
  (List.range 6).flatMap fun k => [passAt (10 * k : Nat) (k + 7), failAt (10 * k + 4 : Nat) (k + 7), .wake 0]

theorem no_restart_socket_respawns : ∃ s e, Started s ∧ 0 < s.count ∧ (s.at_ 0).flags.critical = false ∧
    (s.at_ 0).conf.noExcise = false ∧ (s.at_ 0).flags.timer = false ∧ (s.at_ 0).conf.bindName = [] ∧
    serviceIsStandby s.services 0 = false ∧ Run.Reaches step (fun e x => Input.failsQuickly 0 e x = true) s e ∧
    s.spawnsOf 0 = 0 ∧ (s.at_ 0).conf.spawnBound < e.spawnsOf 0 := by
  have hok : Run.AllOk step (fun e x => Input.failsQuickly 0 e x = true) sockBoot sockRun := by decide +kernel
  refine ⟨sockBoot, sockRun.foldl step sockBoot, ⟨_, _, _, ?_, rfl⟩, ?_, ?_, ?_, ?_, ?_, ?_, hok.reaches, ?_, ?_⟩
  all_goals decide +kernel

end Pid1

end SchemaInit.Engine
